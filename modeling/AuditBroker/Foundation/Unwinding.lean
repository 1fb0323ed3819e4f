import Mathlib.Data.List.Induction

/-!
# Unwinding

A deterministic system answers a sequence of inputs.  Some of the inputs are kept, the others are
deleted.  If a relation between the states of the full run and those of the reduced run ignores what
is deleted and makes the kept inputs answer alike, then the reduced run answers as the full one does.
The relation may depend on the inputs that the full run has met so far.
-/

namespace Foundation

variable {σ ε ο : Type*} (step : σ → ε → ο × σ) (keep : ε → Bool)

/-- The state after a sequence of inputs. -/
def final (s : σ) (es : List ε) : σ := es.foldl (fun s e => (step s e).2) s

/-- The answers to a sequence of inputs. -/
def outputs : σ → List ε → List ο
  | _, [] => []
  | s, e :: es => (step s e).1 :: outputs (step s e).2 es

/-- The answers to the inputs that are kept. -/
def keptOutputs : σ → List ε → List ο
  | _, [] => []
  | s, e :: es =>
    if keep e then (step s e).1 :: keptOutputs (step s e).2 es else keptOutputs (step s e).2 es

variable {step keep} {s s' : σ} {es : List ε}

theorem final_concat (s : σ) (es : List ε) (e : ε) :
    final step s (es ++ [e]) = (step (final step s es) e).2 := by
  simp [final]

theorem outputs_concat (s : σ) (es : List ε) (e : ε) :
    outputs step s (es ++ [e]) = outputs step s es ++ [(step (final step s es) e).1] := by
  induction es generalizing s with
  | nil => simp [outputs, final]
  | cons e' es ih =>
    simp only [List.cons_append, outputs, ih]
    simp [final]

theorem keptOutputs_concat (s : σ) (es : List ε) (e : ε) :
    keptOutputs step keep s (es ++ [e]) =
      keptOutputs step keep s es ++ if keep e then [(step (final step s es) e).1] else [] := by
  induction es generalizing s with
  | nil => simp [keptOutputs, final]
  | cons e' es ih =>
    simp only [List.cons_append, keptOutputs, ih]
    split <;> simp [final]

/-- The relation holds along the two runs, and the reduced one answers as the full one. -/
theorem unwinding {R : List ε → σ → σ → Prop} (h₀ : R [] s s')
    (hskip : ∀ hs e t t', hs ++ [e] <+: es → keep e = false → t = final step s hs →
      t' = final step s' (hs.filter keep) → R hs t t' → R (hs ++ [e]) (step t e).2 t')
    (hkeep : ∀ hs e t t', hs ++ [e] <+: es → keep e = true → t = final step s hs →
      t' = final step s' (hs.filter keep) → R hs t t' →
        (step t e).1 = (step t' e).1 ∧ R (hs ++ [e]) (step t e).2 (step t' e).2) :
    keptOutputs step keep s es = outputs step s' (es.filter keep) := by
  have hall : ∀ hs, hs <+: es → R hs (final step s hs) (final step s' (hs.filter keep)) ∧
      keptOutputs step keep s hs = outputs step s' (hs.filter keep) := by
    intro hs
    induction hs using List.reverseRecOn with
    | nil => exact fun _ => ⟨h₀, rfl⟩
    | append_singleton hs e ih =>
      intro hpre
      obtain ⟨hR, hout⟩ := ih ((List.prefix_append hs [e]).trans hpre)
      rw [final_concat, keptOutputs_concat, hout, List.filter_append]
      by_cases hk : keep e = true
      · obtain ⟨heq, hR'⟩ := hkeep hs e _ _ hpre hk rfl rfl hR
        have hlast : [e].filter keep = [e] := by simp [hk]
        rw [hlast, final_concat, outputs_concat, ← heq, if_pos hk]
        exact ⟨hR', rfl⟩
      · have hR' := hskip hs e _ _ hpre (by simpa using hk) rfl rfl hR
        have hlast : [e].filter keep = [] := by simp [hk]
        rw [hlast, List.append_nil, if_neg hk, List.append_nil]
        exact ⟨hR', rfl⟩
  exact (hall es List.prefix_rfl).2

end Foundation
