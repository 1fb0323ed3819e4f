import AuditBroker.Foundation.Text
import Mathlib.Data.List.Infix
import Mathlib.Tactic.Ring

/-!
# Byte streams over a descriptor

A descriptor from which a peer's octets are read, and one to which octets are written.  Each call is
governed by a list of what the next calls do (`Ready`): transfer some of what was asked for, be
interrupted, find that it would block, or fail.  When the list is exhausted, calls transfer all they
can.  After the last octet of the peer, a read reports the end of the file.

`fill` reads until a buffer holds a wanted number of octets and `flush` writes until nothing is left;
both retry interrupted calls and stop at the first call that would block or fails.  Their lemmas say
what a caller may rely on however the transfer is split.
-/

namespace Foundation

/-- What a call on a descriptor does. -/
inductive Ready where
  /-- It transfers at most one octet more than this number. -/
  | data (more : ℕ)
  /-- It is interrupted by a signal. -/
  | intr
  /-- It would block. -/
  | again
  /-- It fails. -/
  | fail
  deriving DecidableEq

/-! ## Reading -/

/-- A descriptor to read from: what the peer has still to deliver before the end of the file, and
what the next calls do. -/
structure Source where
  stream : Bytes
  ready : List Ready
  deriving DecidableEq

/-- The result of one read. -/
inductive Got where
  /-- Some octets. -/
  | bytes (b : Bytes)
  /-- The end of the file. -/
  | eof
  /-- `EINTR`. -/
  | intr
  /-- `EAGAIN`. -/
  | again
  /-- Another error. -/
  | fail

namespace Source

/-- Deliver up to `n` octets. -/
def deliver (n : ℕ) (stream : Bytes) (ready : List Ready) : Got × Source :=
  if stream = [] then (.eof, ⟨[], ready⟩) else (.bytes (stream.take n), ⟨stream.drop n, ready⟩)

/-- `read` of up to `n` octets. -/
def read (n : ℕ) (s : Source) : Got × Source :=
  match s.ready with
  | [] => deliver n s.stream []
  | .data m :: rs => deliver (min n (m + 1)) s.stream rs
  | .intr :: rs => (.intr, ⟨s.stream, rs⟩)
  | .again :: rs => (.again, ⟨s.stream, rs⟩)
  | .fail :: rs => (.fail, ⟨s.stream, rs⟩)

/-- What is left to read and of the calls to come; every call that does not see the end of the file
uses up some of it. -/
def budget (s : Source) : ℕ := s.stream.length + s.ready.length

/-- What one read of at least one octet can do. -/
inductive Reads (n : ℕ) (s : Source) : Got → Source → Prop where
  | bytes (b : Bytes) (s' : Source) (hne : b ≠ []) (hle : b.length ≤ n)
      (hstream : s.stream = b ++ s'.stream) (hready : s'.ready <:+ s.ready) : Reads n s (.bytes b) s'
  | eof (s' : Source) (hend : s.stream = []) (hend' : s'.stream = [])
      (hready : s'.ready <:+ s.ready) : Reads n s .eof s'
  | intr (rs : List Ready) (hready : s.ready = .intr :: rs) : Reads n s .intr ⟨s.stream, rs⟩
  | again (rs : List Ready) (hready : s.ready = .again :: rs) : Reads n s .again ⟨s.stream, rs⟩
  | fail (rs : List Ready) (hready : s.ready = .fail :: rs) : Reads n s .fail ⟨s.stream, rs⟩

theorem reads_deliver {n k : ℕ} {s : Source} {rs : List Ready} (hk : 0 < k) (hle : k ≤ n)
    (hready : rs <:+ s.ready) :
    Reads n s (deliver k s.stream rs).1 (deliver k s.stream rs).2 := by
  unfold deliver
  split
  · exact .eof _ ‹_› rfl hready
  · rename_i hne
    refine .bytes _ _ ?_ ?_ (List.take_append_drop k s.stream).symm hready
    · rw [ne_eq, List.take_eq_nil_iff, not_or]
      exact ⟨hk.ne', hne⟩
    · exact le_trans (List.length_take_le k s.stream) hle

theorem reads_read {n : ℕ} (hn : 0 < n) (s : Source) : Reads n s (s.read n).1 (s.read n).2 := by
  obtain ⟨stream, ready⟩ := s
  cases ready with
  | nil => exact reads_deliver (s := ⟨stream, []⟩) hn le_rfl (List.suffix_refl _)
  | cons r rs =>
    cases r with
    | data m =>
      exact reads_deliver (s := ⟨stream, .data m :: rs⟩) (by omega) (min_le_left _ _)
        (List.suffix_cons _ _)
    | intr => exact .intr rs rfl
    | again => exact .again rs rfl
    | fail => exact .fail rs rfl

/-- Reading uses up the budget, except at the end of the file. -/
theorem Reads.budget_lt {n : ℕ} {s s' : Source} {g : Got} (h : Reads n s g s') :
    g = .eof ∨ s'.budget < s.budget := by
  cases h with
  | bytes b s' hne hle hstream hready =>
    have hb := List.length_pos_iff.mpr hne
    have := hready.length_le
    right
    rw [budget, budget, hstream, List.length_append]
    omega
  | eof => exact Or.inl rfl
  | intr rs hready => exact Or.inr (by simp [budget, hready])
  | again rs hready => exact Or.inr (by simp [budget, hready])
  | fail rs hready => exact Or.inr (by simp [budget, hready])

/-- Reading uses up the calls to come from the front. -/
theorem Reads.ready_suffix {n : ℕ} {s s' : Source} {g : Got} (h : Reads n s g s') :
    s'.ready <:+ s.ready := by
  cases h with
  | bytes b s' hne hle hstream hready => exact hready
  | eof s' hend hend' hready => exact hready
  | intr rs hready => rw [hready]; exact List.suffix_cons _ _
  | again rs hready => rw [hready]; exact List.suffix_cons _ _
  | fail rs hready => rw [hready]; exact List.suffix_cons _ _

end Source

/-- How reading into a buffer ends. -/
inductive Fill where
  /-- The buffer is full. -/
  | full
  /-- The end of the file came first. -/
  | eof
  /-- A read would have blocked. -/
  | again
  /-- A read failed. -/
  | fail
  deriving DecidableEq

/-- Read until `buf` holds `want` octets. -/
def fill (want : ℕ) (buf : Bytes) (s : Source) : Fill × Bytes × Source :=
  if _hlt : buf.length < want then
    match _h : s.read (want - buf.length) with
    | (.bytes b, s') => fill want (buf ++ b) s'
    | (.intr, s') => fill want buf s'
    | (.again, s') => (.again, buf, s')
    | (.fail, s') => (.fail, buf, s')
    | (.eof, s') => (.eof, buf, s')
  else (.full, buf, s)
termination_by s.budget
decreasing_by
  all_goals
    have hreads := Source.reads_read (n := want - buf.length) (by omega) s
    rw [_h] at hreads
    simpa using hreads.budget_lt

/-- What reading into a buffer leaves behind, however the stream was split. -/
structure Filled (want : ℕ) (buf : Bytes) (s : Source) (r : Fill) (buf' : Bytes) (s' : Source) :
    Prop where
  /-- No octet is lost or made up. -/
  moved : buf' ++ s'.stream = buf ++ s.stream
  grows : buf.length ≤ buf'.length
  length_le : buf'.length ≤ want
  ready : s'.ready <:+ s.ready
  full_iff : r = .full ↔ buf'.length = want
  eof : r = .eof → s'.stream = []
  again : r = .again → .again ∈ s.ready ∧ s'.ready.length < s.ready.length
  fail : r = .fail → .fail ∈ s.ready

theorem fill_of_lt {want : ℕ} {buf : Bytes} (hlt : buf.length < want) (s : Source) :
    fill want buf s =
      match s.read (want - buf.length) with
      | (.bytes b, s') => fill want (buf ++ b) s'
      | (.intr, s') => fill want buf s'
      | (.again, s') => (.again, buf, s')
      | (.fail, s') => (.fail, buf, s')
      | (.eof, s') => (.eof, buf, s') := by
  rw [fill, dif_pos hlt]
  split <;> simp only [*]

theorem fill_of_length_eq {want : ℕ} {buf : Bytes} (h : buf.length = want) (s : Source) :
    fill want buf s = (.full, buf, s) := by
  rw [fill, dif_neg (by omega)]

theorem filled_fill {want : ℕ} {buf : Bytes} (hle : buf.length ≤ want) (s : Source) :
    Filled want buf s (fill want buf s).1 (fill want buf s).2.1 (fill want buf s).2.2 := by
  -- Every octet read and every interruption uses up some of the budget.
  induction hb : s.budget using Nat.strong_induction_on generalizing buf s with
  | _ k ih =>
    subst hb
    rcases hle.eq_or_lt with heq | hlt
    · rw [fill_of_length_eq heq]
      exact ⟨rfl, le_rfl, hle, List.suffix_refl _, by simp [heq], by simp, by simp, by simp⟩
    have hreads := Source.reads_read (n := want - buf.length) (by omega) s
    have hbudget := hreads.budget_lt
    have hsuff := hreads.ready_suffix
    rw [fill_of_lt hlt]
    rcases hread : s.read (want - buf.length) with ⟨g, s'⟩
    rw [hread] at hreads hbudget hsuff
    cases hreads with
    | bytes b s' hne hlen hstream =>
      have hle' : (buf ++ b).length ≤ want := by
        rw [List.length_append]
        omega
      have hf := ih s'.budget (by simpa using hbudget) hle' s' rfl
      refine ⟨?_, ?_, hf.length_le, hf.ready.trans hsuff, hf.full_iff, hf.eof, ?_, ?_⟩
      · rw [hf.moved, hstream, List.append_assoc]
      · exact le_trans (by simp) hf.grows
      · intro hr
        exact ⟨hsuff.subset (hf.again hr).1, lt_of_lt_of_le (hf.again hr).2 hsuff.length_le⟩
      · intro hr
        exact hsuff.subset (hf.fail hr)
    | intr rs =>
      have hf := ih _ (by simpa using hbudget) hle ⟨s.stream, rs⟩ rfl
      refine ⟨hf.moved, hf.grows, hf.length_le, hf.ready.trans hsuff, hf.full_iff, hf.eof, ?_, ?_⟩
      · intro hr
        exact ⟨hsuff.subset (hf.again hr).1, lt_of_lt_of_le (hf.again hr).2 hsuff.length_le⟩
      · intro hr
        exact hsuff.subset (hf.fail hr)
    | eof s' hend hend' =>
      exact ⟨by rw [hend, hend'], le_rfl, hle, hsuff, by simp [hlt.ne], fun _ => hend', by simp,
        by simp⟩
    | again rs hready =>
      exact ⟨rfl, le_rfl, hle, hsuff, by simp [hlt.ne], by simp, by simp [hready], by simp⟩
    | fail rs hready =>
      exact ⟨rfl, le_rfl, hle, hsuff, by simp [hlt.ne], by simp, by simp, by simp [hready]⟩

section Filled

variable {want : ℕ} {buf buf' : Bytes} {s s' : Source} {r : Fill}

/-- A buffer that is not too long is filled, or the file ends before that, or a read would have
blocked; the stream alone decides between the first two. -/
theorem Filled.cases (h : Filled want buf s r buf' s') (hfail : .fail ∉ s.ready) :
    (r = .full ∧ want ≤ (buf ++ s.stream).length ∧ buf' = (buf ++ s.stream).take want ∧
      s'.stream = (buf ++ s.stream).drop want) ∨
    (r = .eof ∧ (buf ++ s.stream).length < want ∧ s'.stream = []) ∨
    (r = .again ∧ .again ∈ s.ready ∧ buf'.length < want ∧ s'.ready.length < s.ready.length) := by
  have hshort : r ≠ .full → buf'.length < want := fun hr =>
    lt_of_le_of_ne h.length_le fun heq => hr (h.full_iff.mpr heq)
  cases r with
  | full =>
    have hlen := h.full_iff.mp rfl
    refine Or.inl ⟨rfl, ?_, ?_, ?_⟩
    · rw [← h.moved, List.length_append]
      omega
    · rw [← h.moved, ← hlen, List.take_left]
    · rw [← h.moved, ← hlen, List.drop_left]
  | eof =>
    refine Or.inr (Or.inl ⟨rfl, ?_, h.eof rfl⟩)
    rw [← h.moved, h.eof rfl, List.append_nil]
    exact hshort (by simp)
  | again =>
    exact Or.inr (Or.inr ⟨rfl, (h.again rfl).1, hshort (by simp), (h.again rfl).2⟩)
  | fail => exact absurd (h.fail rfl) hfail

/-- What reading into a buffer took comes after what was there. -/
theorem Filled.exists_append (h : Filled want buf s r buf' s') :
    ∃ b, buf' = buf ++ b ∧ s.stream = b ++ s'.stream := by
  have hpre : buf <+: buf' :=
    List.prefix_of_prefix_length_le (List.prefix_append buf s.stream)
      (h.moved ▸ List.prefix_append buf' s'.stream) h.grows
  obtain ⟨b, rfl⟩ := hpre
  have hmoved := h.moved
  rw [List.append_assoc, List.append_cancel_left_eq] at hmoved
  exact ⟨b, rfl, hmoved.symm⟩

/-- Filling a buffer does not add to the budget, and it uses some of it when a read would block. -/
theorem Filled.budget_le (h : Filled want buf s r buf' s') :
    s'.budget ≤ s.budget ∧ (r = .again → s'.budget < s.budget) := by
  have hmoved := congrArg List.length h.moved
  have hready := h.ready.length_le
  have hgrows := h.grows
  rw [List.length_append, List.length_append] at hmoved
  refine ⟨?_, fun hr => ?_⟩
  · rw [Source.budget, Source.budget]
    omega
  · have := (h.again hr).2
    rw [Source.budget, Source.budget]
    omega

end Filled

/-- The budget after filling a buffer of any length. -/
theorem fill_budget_le (want : ℕ) (buf : Bytes) (s : Source) :
    (fill want buf s).2.2.budget ≤ s.budget ∧
      ((fill want buf s).1 = .again → (fill want buf s).2.2.budget < s.budget) := by
  rcases le_or_gt buf.length want with hle | hlt
  · exact (filled_fill hle s).budget_le
  · rw [fill, dif_neg (by omega)]
    exact ⟨le_rfl, by simp⟩

/-! ## Writing -/

/-- A descriptor to write to: what was taken from the writer so far, and what the next calls do. -/
structure Drain where
  sent : Bytes
  ready : List Ready
  deriving DecidableEq

/-- How writing a buffer ends. -/
inductive Flush where
  /-- Everything is written. -/
  | done
  /-- A write would have blocked. -/
  | again
  /-- A write failed. -/
  | fail
  deriving DecidableEq

/-- Write until nothing of `out` is left; each call takes a prefix of what it is offered. -/
def flush (out : Bytes) (d : Drain) : Flush × Bytes × Drain :=
  if out = [] then (.done, [], d)
  else
    match _hready : d.ready with
    | [] => (.done, [], ⟨d.sent ++ out, []⟩)
    | .data m :: rs => flush (out.drop (m + 1)) ⟨d.sent ++ out.take (m + 1), rs⟩
    | .intr :: rs => flush out ⟨d.sent, rs⟩
    | .again :: rs => (.again, out, ⟨d.sent, rs⟩)
    | .fail :: rs => (.fail, out, ⟨d.sent, rs⟩)
termination_by d.ready.length
decreasing_by
  all_goals simp [_hready]

/-- What writing a buffer leaves behind, however the writes were split. -/
structure Flushed (out : Bytes) (d : Drain) (r : Flush) (out' : Bytes) (d' : Drain) : Prop where
  /-- No octet is lost or made up. -/
  moved : d'.sent ++ out' = d.sent ++ out
  ready : d'.ready <:+ d.ready
  done_iff : r = .done ↔ out' = []
  again : r = .again → .again ∈ d.ready
  fail : r = .fail → .fail ∈ d.ready

theorem flushed_flush (out : Bytes) (d : Drain) :
    Flushed out d (flush out d).1 (flush out d).2.1 (flush out d).2.2 := by
  obtain ⟨sent, ready⟩ := d
  induction ready generalizing out sent with
  | nil =>
    rw [flush]
    split
    · exact ⟨by simp [*], List.suffix_refl _, by simp, by simp, by simp⟩
    · exact ⟨by simp, List.suffix_refl _, by simp, by simp, by simp⟩
  | cons r rs ih =>
    rw [flush]
    split
    · exact ⟨by simp [*], List.suffix_refl _, by simp, by simp, by simp⟩
    rename_i hne
    have hsuff : rs <:+ r :: rs := List.suffix_cons r rs
    cases r with
    | data m =>
      have hf := ih (out.drop (m + 1)) (sent ++ out.take (m + 1))
      refine ⟨?_, hf.ready.trans hsuff, hf.done_iff, fun h => hsuff.subset (hf.again h),
        fun h => hsuff.subset (hf.fail h)⟩
      rw [hf.moved, List.append_assoc, List.take_append_drop]
    | intr =>
      have hf := ih out sent
      exact ⟨hf.moved, hf.ready.trans hsuff, hf.done_iff, fun h => hsuff.subset (hf.again h),
        fun h => hsuff.subset (hf.fail h)⟩
    | again => exact ⟨rfl, hsuff, by simp [hne], by simp, by simp⟩
    | fail => exact ⟨rfl, hsuff, by simp [hne], by simp, by simp⟩

end Foundation
