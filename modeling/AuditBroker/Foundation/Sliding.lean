import AuditBroker.Foundation.History
import AuditBroker.Foundation.Ring
import AuditBroker.Foundation.Tumbling

/-!
# Sliding windows over a whole history

A sliding window of length `w` admits an item when the items of its kind from the last `w` and the
item itself weigh at most the limit.  If every item of a history was admitted so, then no interval of
length `w` holds more than the limit, wherever it lies (`totalOf_interval_le`): the last item in the
interval was admitted when all others of the interval were in its window.

What a window remembers of its stream is a final part that lacks only old items (`Recent`).  Such a
part has all items of a window (`Recent.filter_eq`), and the longer of two final parts lacks no
more than the shorter one (`Recent.of_length_le`).
-/

namespace Foundation

/-! ## Final parts of a stream -/

section Recent

variable {α : Type*} {time : α → UInt64} {th : UInt64} {stream l l' old : List α}

/-- A final part that is at least as long as a recent one is recent. -/
theorem Recent.of_length_le (h : Recent time th stream l) (hs : stream = old ++ l')
    (hlen : l.length ≤ l'.length) : Recent time th stream l' := by
  obtain ⟨old', rfl, hold⟩ := h
  have hpre : old <+: old' := by
    refine List.prefix_of_prefix_length_le (List.prefix_append old l') ?_ ?_
    · exact hs ▸ List.prefix_append old' l
    · have hsum := congrArg List.length hs
      simp only [List.length_append] at hsum
      omega
  exact ⟨old, hs, fun x hx => hold x (hpre.subset hx)⟩

/-- A recent part has all items of the stream that are not old. -/
theorem Recent.filter_eq (h : Recent time th stream l) {p : α → Bool}
    (hp : ∀ x, p x = true → th ≤ time x) : stream.filter p = l.filter p := by
  obtain ⟨old, rfl, hold⟩ := h
  rw [List.filter_append, List.filter_eq_nil_iff.mpr, List.nil_append]
  intro x hx hpx
  exact UInt64.not_lt.mpr (hp x hpx) (hold x hx)

end Recent

/-! ## Admission -/

section Admission

/-- Items of weight one are counted. -/
theorem totalOf_one {ε : Type*} (time : ε → ℕ) (p : ℕ → Prop) [DecidablePred p] (l : List ε) :
    totalOf time (fun _ => 1) p l = (l.filter fun e => p (time e)).length := by
  simp [totalOf]

variable {ε κ : Type*} [DecidableEq κ] (key : ε → κ) (time weight : ε → ℕ) (w limit : ℕ)

/-- The items of the same kind from the last `w` and the item itself are within the limit. -/
def Admits (J : List ε) (e : ε) : Prop :=
  totalOf time weight (fun t => time e ≤ t + w) (J.filter fun x => key x = key e) + weight e ≤ limit

variable {key time weight w limit} {J : List ε}

/-- Every interval of length `w` is within the limit. -/
theorem totalOf_interval_le (h : Guarded (Admits key time weight w limit) J) (k : κ) (t : ℕ) :
    totalOf time weight (fun x => t ≤ x + w ∧ x ≤ t) (J.filter fun x => key x = k) ≤ limit := by
  induction h with
  | nil => exact Nat.zero_le _
  | @snoc J e _ hadm ih =>
    by_cases hk : key e = k
    · rw [List.filter_append, List.filter_cons_of_pos (by simpa using hk), List.filter_nil]
      by_cases hin : t ≤ time e + w ∧ time e ≤ t
      · -- the rest of the interval was in the window of the item
        rw [totalOf_concat_of_pos hin]
        subst hk
        refine le_trans (Nat.add_le_add_right (totalOf_mono (fun x hx => ?_) _) _) hadm
        exact hin.2.trans hx.1
      · rw [totalOf_concat_of_neg hin]
        exact ih
    · rw [List.filter_append, List.filter_cons_of_neg (by simpa using hk), List.filter_nil,
        List.append_nil]
      exact ih

end Admission

end Foundation
