import AuditBroker.Quota

/-!
# The ring as a bounded queue

A ring is driven by `uid_push` and `uid_evict` alone.  `RingOp.onQueue` says what these calls mean for
a bounded queue: a push appends, after the front has made room in a full queue, and an eviction drops
the entries below the threshold from the front.

Ring indices are computed as `(head + k) % cap` in 32 bits.  For a capacity up to `2 ^ 31` the sum
never wraps around and the ring is the queue.  For every larger capacity it is not: `rounds` moves the
head to the last cell, and the push whose index sum reaches `2 ^ 32` then overwrites the second entry
(`not_isQueue_wrapping`).
-/

namespace AuditBroker

open Foundation

/-! ## Calls on a ring -/

/-- A call on a ring. -/
inductive RingOp where
  /-- `uid_push`. -/
  | push (t nbytes : UInt64)
  /-- `uid_evict`. -/
  | evict (th : UInt64)

/-- The call on the ring. -/
def RingOp.onRing (u : UidState) : RingOp → UidState
  | push t nbytes => u.uidPush t nbytes
  | evict th => u.uidEvict th

/-- The call on a queue with room for `cap` entries. -/
def RingOp.onQueue (cap : ℕ) (l : List (UInt64 × UInt64)) : RingOp → List (UInt64 × UInt64)
  | push t nbytes => (if l.length = cap then l.tail else l) ++ [(t, nbytes)]
  | evict th => l.dropWhile fun e => e.1 < th

/-- The ring after a sequence of calls on a new one. -/
def ringAfter (cap : UInt32) (ops : List RingOp) : UidState :=
  ops.foldl RingOp.onRing (UidState.zero cap)

/-- The queue after a sequence of calls on an empty one. -/
def queueAfter (cap : ℕ) (ops : List RingOp) : List (UInt64 × UInt64) :=
  ops.foldl (RingOp.onQueue cap) []

/-- The ring holds a queue: its entries from the head on are those of the queue, its indices are in
range and its sum is that of the queue. -/
structure UidState.IsQueue (u : UidState) (l : List (UInt64 × UInt64)) : Prop where
  entries_eq : u.entries = l
  head_lt : u.head < u.cap
  n_le : u.n ≤ u.cap
  bsum_eq : u.bsum = (l.map Prod.snd).sum

theorem ringAfter_append (cap : UInt32) (ops ops' : List RingOp) :
    ringAfter cap (ops ++ ops') = ops'.foldl RingOp.onRing (ringAfter cap ops) :=
  List.foldl_append

theorem queueAfter_append (cap : ℕ) (ops ops' : List RingOp) :
    queueAfter cap (ops ++ ops') = ops'.foldl (RingOp.onQueue cap) (queueAfter cap ops) :=
  List.foldl_append

/-! ## Capacity and number of entries -/

@[simp] theorem UidState.uidPush_cap (u : UidState) (t nbytes : UInt64) :
    (u.uidPush t nbytes).cap = u.cap := by
  by_cases h : u.n = u.cap <;> simp [UidState.uidPush, UidState.dropHead, h]

@[simp] theorem UidState.uidEvict_cap (u : UidState) (th : UInt64) :
    (u.uidEvict th).cap = u.cap := by
  have hloop : ∀ k (u : UidState), (UidState.evictLoop th k u).cap = u.cap := by
    intro k
    induction k with
    | zero => exact fun _ => rfl
    | succ k ih =>
      intro u
      rw [UidState.evictLoop]
      split
      · exact ih u.dropHead
      · rfl
  exact hloop _ u

theorem UidState.n_evictLoop_le (th : UInt64) (k : ℕ) (u : UidState) :
    (UidState.evictLoop th k u).n ≤ u.n := by
  induction k generalizing u with
  | zero => exact UInt32.le_refl _
  | succ k ih =>
    rw [UidState.evictLoop]
    split
    · rename_i hpos
      refine UInt32.le_trans (ih u.dropHead) ?_
      change u.n - 1 ≤ u.n
      have hn := UInt32.lt_iff_toNat_lt.mp hpos.1
      rw [UInt32.le_iff_toNat_le, UInt32.toNat_sub_of_le]
      · exact Nat.sub_le _ _
      · exact UInt32.le_iff_toNat_le.mpr hn
    · exact UInt32.le_refl _

theorem UidState.n_uidEvict_le (u : UidState) (th : UInt64) : (u.uidEvict th).n ≤ u.n :=
  UidState.n_evictLoop_le th _ u

/-- A push onto a ring that has room. -/
theorem UidState.uidPush_of_room {u : UidState} (h : u.n ≠ u.cap) (t nbytes : UInt64) :
    u.uidPush t nbytes = { u with
      ts := Function.update u.ts ((u.head + u.n) % u.cap).toNat t
      bytes := Function.update u.bytes ((u.head + u.n) % u.cap).toNat nbytes
      bsum := u.bsum + nbytes
      n := u.n + 1 } := by
  simp only [UidState.uidPush, if_neg h]

/-- A ring of the given capacity with no more entries than that. -/
structure UidState.Fits (cap : UInt32) (u : UidState) : Prop where
  cap_eq : u.cap = cap
  n_le : u.n ≤ cap

section Fits

variable {u u' : UidState} {cap : UInt32}

theorem UidState.fits_zero (cap : UInt32) : (UidState.zero cap).Fits cap :=
  ⟨rfl, UInt32.zero_le⟩

/-- Whether a ring fits does not depend on the counter beside it. -/
theorem UidState.Fits.of_ring (h : u.Fits cap) (hring : u'.ring = u.ring) : u'.Fits cap where
  cap_eq := (congrArg UidState.cap hring).trans h.cap_eq
  n_le := by
    have hn : u'.ring.n = u.ring.n := by rw [hring]
    change u'.ring.n ≤ cap
    rw [hn]
    exact h.n_le

theorem UidState.Fits.uidEvict (h : u.Fits cap) (th : UInt64) : (u.uidEvict th).Fits cap where
  cap_eq := (u.uidEvict_cap th).trans h.cap_eq
  n_le := UInt32.le_trans (u.n_uidEvict_le th) h.n_le

theorem UidState.Fits.uidPush (h : u.Fits cap) (t nbytes : UInt64) :
    (u.uidPush t nbytes).Fits cap where
  cap_eq := (u.uidPush_cap t nbytes).trans h.cap_eq
  n_le := by
    by_cases hfull : u.n = u.cap
    · have hn : (u.uidPush t nbytes).n = u.n := by
        simp [UidState.uidPush, UidState.dropHead, hfull]
      rw [hn]
      exact h.n_le
    · rw [UidState.uidPush_of_room hfull]
      have hlt : u.n < cap := by
        rw [← h.cap_eq]
        exact UInt32.lt_of_le_of_ne (h.cap_eq ▸ h.n_le) hfull
      change u.n + 1 ≤ cap
      rw [UInt32.lt_iff_toNat_lt] at hlt
      have hcap := cap.toNat_lt
      rw [UInt32.le_iff_toNat_le, UInt32.toNat_add]
      change (u.n.toNat + 1) % 2 ^ 32 ≤ cap.toNat
      rw [Nat.mod_eq_of_lt (by omega)]
      exact hlt

end Fits

/-! ## Sequences without overflow -/

/-- No call of the sequence pushes onto a full ring. -/
def RingOp.Roomy : UidState → List RingOp → Prop
  | _, [] => True
  | u, op :: ops => (∀ t nbytes, op = .push t nbytes → u.n ≠ u.cap) ∧ Roomy (op.onRing u) ops

/-- The entry that a call pushes. -/
def RingOp.pushed : RingOp → Option (UInt64 × UInt64)
  | push t nbytes => some (t, nbytes)
  | evict _ => none

/-- One ring arises from another by calls that push the given entries, in this order, and none of
these pushes takes the overflow branch. -/
def UidState.Driven (u u' : UidState) (pushes : List (UInt64 × UInt64)) : Prop :=
  ∃ ops, u' = ops.foldl RingOp.onRing u ∧ RingOp.Roomy u ops ∧ ops.filterMap RingOp.pushed = pushes

section Driven

variable {u u' : UidState} {ops : List RingOp} {op : RingOp} {pushes : List (UInt64 × UInt64)}

theorem RingOp.Roomy.concat (h : Roomy u ops)
    (hop : ∀ t nbytes, op = .push t nbytes →
      (ops.foldl RingOp.onRing u).n ≠ (ops.foldl RingOp.onRing u).cap) :
    Roomy u (ops ++ [op]) := by
  induction ops generalizing u with
  | nil => exact ⟨hop, trivial⟩
  | cons op' ops ih => exact ⟨h.1, ih h.2 hop⟩

theorem UidState.Driven.refl (u : UidState) : u.Driven u [] := ⟨[], rfl, trivial, rfl⟩

theorem UidState.Driven.evict (h : u.Driven u' pushes) (th : UInt64) :
    u.Driven (u'.uidEvict th) pushes := by
  obtain ⟨ops, rfl, hroomy, rfl⟩ := h
  refine ⟨ops ++ [.evict th], ?_, hroomy.concat ?_, ?_⟩
  · rw [List.foldl_append]
    rfl
  · rintro t nbytes ⟨⟩
  · simp [RingOp.pushed]

theorem UidState.Driven.push (h : u.Driven u' pushes) (hroom : u'.n ≠ u'.cap) (t nbytes : UInt64) :
    u.Driven (u'.uidPush t nbytes) (pushes ++ [(t, nbytes)]) := by
  obtain ⟨ops, rfl, hroomy, rfl⟩ := h
  refine ⟨ops ++ [.push t nbytes], ?_, hroomy.concat fun _ _ _ => hroom, ?_⟩
  · rw [List.foldl_append]
    rfl
  · simp [RingOp.pushed]

end Driven

/-! ## Small capacities -/

section Small

variable {u : UidState} {cap : UInt32}

theorem UidState.Ring.isQueue (h : u.Ring) : u.IsQueue u.entries where
  entries_eq := rfl
  head_lt := UInt32.lt_iff_toNat_lt.mpr h.head_lt
  n_le := UInt32.le_iff_toNat_le.mpr h.n_le
  bsum_eq := h.bsum_eq

/-- One call: the ring goes on being the queue. -/
theorem UidState.Ring.onRing (h : u.Ring) (op : RingOp) :
    (op.onRing u).entries = op.onQueue u.cap.toNat u.entries ∧ (op.onRing u).Ring ∧
      (op.onRing u).cap = u.cap := by
  cases op with
  | push t nbytes =>
    obtain ⟨hentries, hring⟩ := UidState.entries_uidPush h t nbytes
    have hfull : u.n = u.cap ↔ u.entries.length = u.cap.toNat := by
      rw [UidState.length_entries, UInt32.toNat_inj]
    simp only [RingOp.onRing, RingOp.onQueue, ← hfull]
    exact ⟨hentries, hring, u.uidPush_cap t nbytes⟩
  | evict th =>
    obtain ⟨hentries, hring⟩ := UidState.entries_uidEvict h th
    exact ⟨hentries, hring, u.uidEvict_cap th⟩

/-- Any sequence of calls. -/
theorem ring_ringAfter (hpos : 0 < cap.toNat) (hcap : cap.toNat ≤ 2 ^ 31) (ops : List RingOp) :
    (ringAfter cap ops).entries = queueAfter cap.toNat ops ∧ (ringAfter cap ops).Ring ∧
      (ringAfter cap ops).cap = cap := by
  induction ops using List.reverseRecOn with
  | nil => exact ⟨UidState.entries_zero cap, UidState.ring_zero hpos hcap, rfl⟩
  | append_singleton ops op ih =>
    obtain ⟨hentries, hring, hc⟩ := ih
    obtain ⟨hentries', hring', hc'⟩ := hring.onRing op
    rw [ringAfter_append, queueAfter_append]
    refine ⟨?_, hring', hc'.trans hc⟩
    rw [List.foldl_cons, List.foldl_nil, hentries', hentries, hc]
    rfl

end Small

/-! ## Large capacities -/

theorem toNat_ofNat32 {k : ℕ} (h : k < 2 ^ 32) : (UInt32.ofNat k).toNat = k := by
  rw [UInt32.toNat_ofNat']
  exact Nat.mod_eq_of_lt h

/-- A ring whose cells are all zero. -/
def UidState.blank (cap head n : UInt32) : UidState := { UidState.zero cap with head, n }

/-- Push and evict, again and again: each round moves the head by one cell. -/
def rounds (k : ℕ) : List RingOp := (List.replicate k [RingOp.push 0 0, RingOp.evict 1]).flatten

section Large

variable {cap head n : UInt32}

theorem rounds_succ (k : ℕ) : rounds (k + 1) = rounds k ++ [.push 0 0, .evict 1] := by
  simp [rounds, List.replicate_succ']

theorem uidPush_blank (h : n ≠ cap) :
    (UidState.blank cap head n).uidPush 0 0 = UidState.blank cap head (n + 1) := by
  rw [UidState.uidPush_of_room (u := UidState.blank cap head n) h]
  simp [UidState.blank, UidState.zero]

theorem uidEvict_blank (cap head : UInt32) :
    (UidState.blank cap head 1).uidEvict 1 = UidState.blank cap ((head + 1) % cap) 0 := by
  simp [UidState.uidEvict, UidState.evictLoop, UidState.dropHead, UidState.blank, UidState.zero]

theorem ringAfter_rounds {k : ℕ} (hk : k < cap.toNat) :
    ringAfter cap (rounds k) = UidState.blank cap (UInt32.ofNat k) 0 := by
  induction k with
  | zero => rfl
  | succ k ih =>
    have hlt : cap.toNat < 2 ^ 32 := cap.toNat_lt
    have hne : (0 : UInt32) ≠ cap := by
      rintro rfl
      exact absurd hk (Nat.not_lt_zero _)
    have hhead : (UInt32.ofNat k + 1) % cap = UInt32.ofNat (k + 1) := by
      rw [← UInt32.toNat_inj, UInt32.toNat_mod, UInt32.toNat_add, toNat_ofNat32 (by omega),
        toNat_ofNat32 (by omega)]
      change (k + 1) % 2 ^ 32 % cap.toNat = k + 1
      rw [Nat.mod_eq_of_lt (by omega : k + 1 < 2 ^ 32), Nat.mod_eq_of_lt hk]
    rw [rounds_succ, ringAfter_append, ih (by omega)]
    simp only [List.foldl_cons, List.foldl_nil, RingOp.onRing]
    rw [uidPush_blank hne]
    exact (uidEvict_blank cap (UInt32.ofNat k)).trans (by rw [hhead])

theorem queueAfter_rounds (c k : ℕ) : queueAfter c (rounds k) = [] := by
  induction k with
  | zero => rfl
  | succ k ih =>
    rw [rounds_succ, queueAfter_append, ih]
    simp [RingOp.onQueue]

/-- Pushes onto a blank ring that does not fill up. -/
theorem foldl_push_blank {m : ℕ} (hm : m ≤ cap.toNat) :
    (List.replicate m (RingOp.push 0 0)).foldl RingOp.onRing (UidState.blank cap head 0) =
      UidState.blank cap head (UInt32.ofNat m) := by
  induction m with
  | zero => rfl
  | succ m ih =>
    have hlt : cap.toNat < 2 ^ 32 := cap.toNat_lt
    have hne : UInt32.ofNat m ≠ cap := by
      rw [Ne, ← UInt32.toNat_inj, toNat_ofNat32 (by omega)]
      omega
    have hsucc : UInt32.ofNat m + 1 = UInt32.ofNat (m + 1) := (UInt32.ofNat_add m 1).symm
    rw [List.replicate_succ', List.foldl_append, ih (by omega)]
    exact (uidPush_blank hne).trans (by rw [hsucc])

theorem foldl_push_queue {c m : ℕ} (hm : m ≤ c) :
    (List.replicate m (RingOp.push 0 0)).foldl (RingOp.onQueue c) [] =
      List.replicate m ((0, 0) : UInt64 × UInt64) := by
  induction m with
  | zero => rfl
  | succ m ih =>
    rw [List.replicate_succ', List.foldl_append, ih (by omega), List.replicate_succ']
    have hroom : (List.replicate m ((0, 0) : UInt64 × UInt64)).length ≠ c := by
      rw [List.length_replicate]
      omega
    simp only [List.foldl_cons, List.foldl_nil, RingOp.onQueue, if_neg hroom]

/-- The calls that make the index sum wrap around: the head is moved to the last cell, then entries
are pushed until the next index sum is `2 ^ 32`; the last push is recognised by its timestamp. -/
def wrapping (cap : UInt32) : List RingOp :=
  rounds (cap.toNat - 1) ++ List.replicate (2 ^ 32 - cap.toNat + 1) (.push 0 0) ++ [.push 1 0]

/-- The last push overwrites the second entry. -/
theorem not_isQueue_wrapping (hcap : 2 ^ 31 < cap.toNat) :
    ¬(ringAfter cap (wrapping cap)).IsQueue (queueAfter cap.toNat (wrapping cap)) := by
  intro h
  have hlt : cap.toNat < 2 ^ 32 := cap.toNat_lt
  obtain ⟨m, hm⟩ : ∃ m, m = 2 ^ 32 - cap.toNat + 1 := ⟨_, rfl⟩
  have hring : ringAfter cap (wrapping cap) =
      (UidState.blank cap (UInt32.ofNat (cap.toNat - 1)) (UInt32.ofNat m)).uidPush 1 0 := by
    rw [wrapping, ringAfter_append, ringAfter_append, ringAfter_rounds (by omega), ← hm,
      foldl_push_blank (by omega)]
    rfl
  have hqueue : queueAfter cap.toNat (wrapping cap) = List.replicate m (0, 0) ++ [(1, 0)] := by
    have hroom : (List.replicate m ((0, 0) : UInt64 × UInt64)).length ≠ cap.toNat := by
      rw [List.length_replicate]
      omega
    rw [wrapping, queueAfter_append, queueAfter_append, queueAfter_rounds, ← hm,
      foldl_push_queue (by omega)]
    simp only [List.foldl_cons, List.foldl_nil, RingOp.onQueue, if_neg hroom]
  -- The index of the last push and that of the second entry are both the first cell.
  have hslot : (UInt32.ofNat (cap.toNat - 1) + UInt32.ofNat m) % cap = 0 := by
    have hsum : UInt32.ofNat (cap.toNat - 1) + UInt32.ofNat m = 0 := by
      rw [← UInt32.ofNat_add, show cap.toNat - 1 + m = 2 ^ 32 by omega]
      rfl
    rw [hsum, UInt32.zero_mod]
  have hsecond : (UInt32.ofNat (cap.toNat - 1) + 1) % cap = 0 := by
    have hsum : UInt32.ofNat (cap.toNat - 1) + 1 = cap := by
      rw [show (1 : UInt32) = UInt32.ofNat 1 from rfl, ← UInt32.ofNat_add,
        show cap.toNat - 1 + 1 = cap.toNat by omega, UInt32.ofNat_toNat]
    rw [hsum, UInt32.mod_self]
  have hne : ¬UInt32.ofNat m = cap := by
    rw [← UInt32.toNat_inj, toNat_ofNat32 (by omega)]
    omega
  have hn : (UInt32.ofNat m + 1).toNat = m + 1 := by
    rw [show (1 : UInt32) = UInt32.ofNat 1 from rfl, ← UInt32.ofNat_add, toNat_ofNat32 (by omega)]
  have hread : (ringAfter cap (wrapping cap)).entries[1]? = some (1, 0) := by
    rw [hring, UidState.uidPush_of_room (by exact hne)]
    simp only [UidState.entries, UidState.blank, UidState.zero, hn, hslot]
    rw [List.getElem?_map, List.getElem?_range (by omega), Option.map_some]
    change some (Function.update _ _ _ ((UInt32.ofNat (cap.toNat - 1) + 1) % cap).toNat,
      Function.update _ _ _ ((UInt32.ofNat (cap.toNat - 1) + 1) % cap).toNat) = _
    rw [hsecond, Function.update_self, Function.update_self]
  rw [h.entries_eq, hqueue, List.getElem?_append_left (by rw [List.length_replicate]; omega),
    List.getElem?_replicate, if_pos (by omega)] at hread
  simp at hread

end Large

/-- With the largest capacity, the third of three entries is written over the second. -/
theorem ring_not_queue :
    ¬(ringAfter 4294967295 (wrapping 4294967295)).IsQueue
      (queueAfter (4294967295 : UInt32).toNat (wrapping 4294967295)) :=
  not_isQueue_wrapping (by decide)

/-- A ring of some capacity is a bounded queue under all sequences of calls exactly when the capacity
is at most `2 ^ 31`. -/
theorem isQueue_iff {cap : UInt32} (hpos : 0 < cap.toNat) :
    (∀ ops, (ringAfter cap ops).IsQueue (queueAfter cap.toNat ops)) ↔ cap.toNat ≤ 2 ^ 31 := by
  constructor
  · intro h
    by_contra hlarge
    exact not_isQueue_wrapping (Nat.lt_of_not_le hlarge) (h (wrapping cap))
  · intro hcap ops
    obtain ⟨hentries, hring, -⟩ := ring_ringAfter hpos hcap ops
    rw [← hentries]
    exact hring.isQueue

end AuditBroker
