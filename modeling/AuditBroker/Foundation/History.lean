import Mathlib.Data.List.Induction

/-!
# Guarded histories

A history is a list of entries, oldest first.  `Guarded guard J` says that every entry satisfied its
guard when it was appended, where the guard may look at the entries before it.  Facts about a whole
history are proved by induction on how it grew (the constructors of `Guarded`), and what held when a
given entry was appended is recovered by `Guarded.guard_of_eq`.
-/

namespace Foundation

variable {ε : Type*} {guard : List ε → ε → Prop} {J J₁ J₂ : List ε} {e : ε}

/-- Every entry of the history satisfied its guard when it was appended. -/
inductive Guarded (guard : List ε → ε → Prop) : List ε → Prop
  /-- Nothing has happened yet. -/
  | nil : Guarded guard []
  /-- One more entry. -/
  | snoc {J : List ε} {e : ε} : Guarded guard J → guard J e → Guarded guard (J ++ [e])

namespace Guarded

/-- The last entry and what came before it. -/
theorem of_snoc (h : Guarded guard (J ++ [e])) : Guarded guard J ∧ guard J e := by
  generalize hJ : J ++ [e] = K at h
  cases h with
  | nil => simp at hJ
  | snoc h hg =>
    obtain ⟨rfl, heq⟩ := List.append_inj' hJ rfl
    rw [List.singleton_inj] at heq
    exact ⟨h, heq ▸ hg⟩

/-- What comes first in a guarded history is one. -/
theorem of_append (h : Guarded guard (J₁ ++ J₂)) : Guarded guard J₁ := by
  induction J₂ using List.reverseRecOn with
  | nil => rwa [List.append_nil] at h
  | append_singleton J₂ e ih =>
    rw [← List.append_assoc] at h
    exact ih h.of_snoc.1

/-- An entry satisfied its guard when it was appended, and the history up to it is guarded. -/
theorem guard_of_eq (h : Guarded guard J) (hJ : J = J₁ ++ e :: J₂) :
    Guarded guard J₁ ∧ guard J₁ e := by
  subst hJ
  rw [List.append_cons] at h
  exact h.of_append.of_snoc

/-- A guard may be replaced by one that follows from it wherever an entry stands. -/
theorem imp {guard' : List ε → ε → Prop} (h : Guarded guard J)
    (himp : ∀ J₁ e J₂, J = J₁ ++ e :: J₂ → guard J₁ e → guard' J₁ e) : Guarded guard' J := by
  induction h with
  | nil => exact .nil
  | @snoc J e _ hg ih =>
    refine .snoc (ih fun J₁ e' J₂ hJ hg' => himp J₁ e' (J₂ ++ [e]) ?_ hg') (himp J e [] rfl hg)
    rw [hJ, List.append_assoc, List.cons_append]

/-- An entry of a guarded history, with the history before it. -/
theorem exists_of_mem (h : Guarded guard J) (he : e ∈ J) :
    ∃ J₁ J₂, J = J₁ ++ e :: J₂ ∧ Guarded guard J₁ ∧ guard J₁ e := by
  obtain ⟨J₁, J₂, hJ⟩ := List.append_of_mem he
  exact ⟨J₁, J₂, hJ, h.guard_of_eq hJ⟩

/-- If the guard of an entry excludes earlier ones of its kind, there is at most one. -/
theorem eq_of_mem {p : ε → Prop}
    (hp : ∀ J e, Guarded guard J → guard J e → p e → ∀ e' ∈ J, ¬p e') (h : Guarded guard J)
    {e' : ε} (he : e ∈ J) (he' : e' ∈ J) (hpe : p e) (hpe' : p e') : e = e' := by
  induction h with
  | nil => simp at he
  | @snoc J e₁ hJ hg ih =>
    rw [List.mem_append, List.mem_singleton] at he he'
    rcases he with he | rfl <;> rcases he' with he' | rfl
    · exact ih he he'
    · exact absurd hpe (hp J e' hJ hg hpe' e he)
    · exact absurd hpe' (hp J e hJ hg hpe e' he')
    · rfl

end Guarded

end Foundation
