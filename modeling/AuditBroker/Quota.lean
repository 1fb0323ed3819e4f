import AuditBroker.Basic
import AuditBroker.Foundation.Chain
import AuditBroker.Foundation.Ring
import Mathlib.Algebra.BigOperators.Group.List.Basic

/-!
# Per-uid accounting

The per-uid part of `broker.c`: the by-uid hash table, the ring of timestamps and sizes of each uid,
and the rate and byte checks over them.  A node of the by-uid table is never freed while the broker
runs and there is one for each uid, so a node is named by its uid: `UidTable.chain` is the hash
table, `UidTable.node` the content of the nodes.

Ring indices are 32-bit numbers, as in the source.  `UidState.Ring` is the invariant under which the
ring is the queue it is meant to be: the capacity is at most `2 ^ 31`, so that no index computation
wraps around.
-/

namespace AuditBroker

open Foundation

/-! ## Nodes and the by-uid table -/

/-- `uid_state`, without its key and chain pointer. -/
structure UidState where
  /-- `open`: current open intents of this uid. -/
  nOpen : UInt32
  /-- Ring of timestamps. -/
  ts : ℕ → UInt64
  /-- Parallel ring of appended sizes. -/
  bytes : ℕ → UInt64
  cap : UInt32
  n : UInt32
  head : UInt32
  /-- Running sum of the sizes in the ring. -/
  bsum : UInt64

/-- A node as `uid_get` allocates it. -/
def UidState.zero (cap : UInt32) : UidState where
  nOpen := 0
  ts := fun _ => 0
  bytes := fun _ => 0
  cap := cap
  n := 0
  head := 0
  bsum := 0

/-- The by-uid hash table. -/
structure UidTable where
  /-- The chains of `bkt_uid`. -/
  chain : Chains UInt32
  /-- The node of a uid. -/
  node : UInt32 → UidState

/-- `nbkt_uid`. -/
abbrev nbktUid : ℕ := 1024

/-- `huid`, masked: the bucket of a uid. -/
@[irreducible] def huid (uid : UInt32) : ℕ :=
  (((uid.toUInt64 * 11400714819323198485) >>> 29) &&& 1023).toNat

/-- The capacity of a ring. -/
def ringCap (cfg : Config) : UInt32 := if cfg.rateMaxInWindow ≠ 0 then cfg.rateMaxInWindow else 1

/-- The empty table. -/
def UidTable.init (cfg : Config) : UidTable where
  chain := fun _ => []
  node := fun _ => UidState.zero (ringCap cfg)

namespace UidTable

/-- `uid_find`: is there a node for the uid? -/
def uidFind (t : UidTable) (uid : UInt32) : Bool := ((t.chain (huid uid)).find? (· == uid)).isSome

/-- `uid_get`: the table with a node for the uid. -/
def uidGet (cfg : Config) (t : UidTable) (uid : UInt32) : UidTable :=
  if t.uidFind uid then t
  else
    { chain := t.chain.push (huid uid) uid
      node := Function.update t.node uid (UidState.zero (ringCap cfg)) }

/-- Write to a node. -/
def setNode (t : UidTable) (uid : UInt32) (u : UidState) : UidTable :=
  { t with node := Function.update t.node uid u }

end UidTable

/-! ## The ring -/

/-- `win_th`: the in-window threshold. -/
def winTh (cfg : Config) (now : UInt64) : UInt64 :=
  let window := cfg.rateWindowSec.toUInt64 * 1000000
  if window < now then now - window else 0

/-- The window moves on. -/
theorem winTh_mono (cfg : Config) {now now' : UInt64} (h : now ≤ now') :
    winTh cfg now ≤ winTh cfg now' := by
  simp only [winTh, UInt64.le_iff_toNat_le, UInt64.lt_iff_toNat_lt] at h ⊢
  split
  · rename_i h₁
    rw [if_pos (h₁.trans_le h), UInt64.toNat_sub_of_le _ _ (UInt64.le_iff_toNat_le.mpr h₁.le),
      UInt64.toNat_sub_of_le _ _ (UInt64.le_iff_toNat_le.mpr (h₁.le.trans h))]
    omega
  · exact Nat.zero_le _

namespace UidState

/-- Drop the oldest entry. -/
def dropHead (u : UidState) : UidState :=
  { u with bsum := u.bsum - u.bytes u.head.toNat, head := (u.head + 1) % u.cap, n := u.n - 1 }

/-- The loop of `uid_evict`. -/
def evictLoop (th : UInt64) : ℕ → UidState → UidState
  | 0, u => u
  | k + 1, u => if 0 < u.n ∧ u.ts u.head.toNat < th then evictLoop th k u.dropHead else u

/-- `uid_evict`: each turn of the loop takes one entry away, so it runs at most `n` times. -/
def uidEvict (u : UidState) (th : UInt64) : UidState := evictLoop th u.n.toNat u

/-- `uid_push`. -/
def uidPush (u : UidState) (t nbytes : UInt64) : UidState :=
  let u := if u.n = u.cap then u.dropHead else u
  let idx := ((u.head + u.n) % u.cap).toNat
  { u with
    ts := Function.update u.ts idx t
    bytes := Function.update u.bytes idx nbytes
    bsum := u.bsum + nbytes
    n := u.n + 1 }

/-- The entries from `head` on, as the ring walk of `write_rate_carries` reads them. -/
def entries (u : UidState) : List (UInt64 × UInt64) :=
  (List.range u.n.toNat).map fun k =>
    let idx := ((u.head + UInt32.ofNat k) % u.cap).toNat
    (u.ts idx, u.bytes idx)

end UidState

/-! ## Checks and notes -/

/-- The state of the global tumbling window. -/
structure GlobalWindow where
  start : UInt64
  bytes : UInt64

namespace UidTable

/-- The entries of a uid. -/
def entries (t : UidTable) (uid : UInt32) : List (UInt64 × UInt64) := (t.node uid).entries

/-- Evict the ring of a uid. -/
def evictUid (t : UidTable) (uid : UInt32) (th : UInt64) : UidTable :=
  t.setNode uid ((t.node uid).uidEvict th)

/-- `rate_allowed`. -/
def rateAllowed (cfg : Config) (t : UidTable) (uid : UInt32) (now : UInt64) : Bool × UidTable :=
  if cfg.rateMaxInWindow = 0 then (true, t)
  else
    let t := (t.uidGet cfg uid).evictUid uid (winTh cfg now)
    ((t.node uid).n < cfg.rateMaxInWindow, t)

/-- The per-uid part of `bytes_allowed`. -/
def uidBytesAllowed (cfg : Config) (t : UidTable) (uid : UInt32) (now nbytes : UInt64) :
    Bool × UidTable :=
  if cfg.rateMaxBytesPerUid = 0 then (true, t)
  else
    let t := (t.uidGet cfg uid).evictUid uid (winTh cfg now)
    ((t.node uid).bsum + nbytes ≤ cfg.rateMaxBytesPerUid, t)

/-- `rate_note`. -/
def rateNote (cfg : Config) (t : UidTable) (uid : UInt32) (time nbytes : UInt64) : UidTable :=
  if cfg.rateMaxInWindow = 0 then t
  else
    let t := t.uidGet cfg uid
    t.setNode uid ((t.node uid).uidPush time nbytes)

end UidTable

/-- The global part of `bytes_allowed`. -/
def globalBytesAllowed (cfg : Config) (g : GlobalWindow) (now nbytes : UInt64) : Bool :=
  if cfg.rateMaxBytesGlobal = 0 then true
  else
    let window := cfg.rateWindowSec.toUInt64 * 1000000
    let cur := if window ≤ now - g.start then 0 else g.bytes
    cur + nbytes ≤ cfg.rateMaxBytesGlobal

/-- `bytes_allowed`. -/
def bytesAllowed (cfg : Config) (t : UidTable) (g : GlobalWindow) (uid : UInt32)
    (now nbytes : UInt64) : Bool × UidTable :=
  let r := t.uidBytesAllowed cfg uid now nbytes
  (r.1 && globalBytesAllowed cfg g now nbytes, r.2)

/-- `global_bytes_note`. -/
def globalBytesNote (cfg : Config) (g : GlobalWindow) (now nbytes : UInt64) : GlobalWindow :=
  if cfg.rateMaxBytesGlobal = 0 then g
  else
    let window := cfg.rateWindowSec.toUInt64 * 1000000
    let g := if g.start = 0 ∨ window ≤ now - g.start then { start := now, bytes := 0 } else g
    { g with bytes := g.bytes + nbytes }

/-! ## The ring is a queue -/

namespace UidState

/-- The ring invariant. -/
structure Ring (u : UidState) : Prop where
  /-- The head is a cell. -/
  head_lt : u.head.toNat < u.cap.toNat
  /-- There are at most as many entries as cells. -/
  n_le : u.n.toNat ≤ u.cap.toNat
  /-- No index computation wraps around. -/
  cap_le : u.cap.toNat ≤ 2 ^ 31
  /-- The running sum is the sum of the sizes. -/
  bsum_eq : u.bsum = (u.entries.map Prod.snd).sum

@[simp] theorem length_entries (u : UidState) : u.entries.length = u.n.toNat := by
  simp [entries]

theorem entries_zero (cap : UInt32) : (zero cap).entries = [] := rfl

theorem ring_zero {cap : UInt32} (h0 : 0 < cap.toNat) (h : cap.toNat ≤ 2 ^ 31) : (zero cap).Ring :=
  ⟨h0, Nat.zero_le _, h, rfl⟩

/-- The walk of the source is the walk with unbounded indices. -/
theorem entries_eq_ringList {u : UidState} (hh : u.head.toNat < u.cap.toNat)
    (hn : u.n.toNat ≤ u.cap.toNat) (hc : u.cap.toNat ≤ 2 ^ 31) :
    u.entries = ringList (fun i => (u.ts i, u.bytes i)) u.cap.toNat u.head.toNat u.n.toNat := by
  unfold entries ringList
  refine List.map_congr_left fun k hk => ?_
  have hk' : k < u.n.toNat := List.mem_range.mp hk
  have hk32 : (UInt32.ofNat k).toNat = k := by
    rw [UInt32.toNat_ofNat']
    exact Nat.mod_eq_of_lt (by omega)
  have hidx : ((u.head + UInt32.ofNat k) % u.cap).toNat =
      (u.head.toNat + (UInt32.ofNat k).toNat) % u.cap.toNat :=
    toNat_ringSlot (by rw [hk32]; omega)
  simp only [hidx, hk32]

/-- A non-empty ring: its first entry, and the ring without it. -/
theorem entries_eq_cons {u : UidState} (h : u.Ring) (hn : u.n ≠ 0) :
    u.entries = (u.ts u.head.toNat, u.bytes u.head.toNat) :: u.dropHead.entries ∧
      u.dropHead.Ring := by
  obtain ⟨hh, hle, hc, hb⟩ := h
  have hpos : 0 < u.n.toNat := Nat.pos_of_ne_zero fun h0 => hn (UInt32.toNat_inj.mp h0)
  have hn' : u.dropHead.n.toNat = u.n.toNat - 1 := by
    have hone : (1 : UInt32) ≤ u.n := UInt32.le_iff_toNat_le.mpr hpos
    change (u.n - 1).toNat = _
    rw [UInt32.toNat_sub_of_le _ _ hone]
    rfl
  have hhead : u.dropHead.head.toNat = (u.head.toNat + 1) % u.cap.toNat :=
    toNat_ringSlot (k := 1) (by change _ + 1 < _; omega)
  have hcap : u.dropHead.cap = u.cap := rfl
  have hhead_lt : u.dropHead.head.toNat < u.dropHead.cap.toNat := by
    rw [hhead, hcap]
    exact Nat.mod_lt _ (by omega)
  have hn_le : u.dropHead.n.toNat ≤ u.dropHead.cap.toNat := by
    rw [hn', hcap]
    omega
  have hcons : u.entries = (u.ts u.head.toNat, u.bytes u.head.toNat) :: u.dropHead.entries := by
    rw [entries_eq_ringList hh hle hc, entries_eq_ringList hhead_lt hn_le (hcap ▸ hc), hhead, hn',
      hcap, ← Nat.sub_add_cancel hpos, ringList_succ_head hh, Nat.add_sub_cancel]
    rfl
  refine ⟨hcons, hhead_lt, hn_le, hcap ▸ hc, ?_⟩
  have hsum : u.bsum = u.bytes u.head.toNat + (u.dropHead.entries.map Prod.snd).sum := by
    rw [hb, hcons, List.map_cons, List.sum_cons]
  change u.bsum - u.bytes u.head.toNat = _
  rw [hsum, add_sub_cancel_left]

/-- Appending to a ring that has room. -/
theorem entries_append {u u' : UidState} (h : u.Ring) (hn : u.n ≠ u.cap) {t nbytes : UInt64}
    (hu' : u' = { u with
      ts := Function.update u.ts ((u.head + u.n) % u.cap).toNat t
      bytes := Function.update u.bytes ((u.head + u.n) % u.cap).toNat nbytes
      bsum := u.bsum + nbytes
      n := u.n + 1 }) :
    u'.entries = u.entries ++ [(t, nbytes)] ∧ u'.Ring := by
  obtain ⟨hh, hle, hc, hb⟩ := h
  have hlt : u.n.toNat < u.cap.toNat :=
    lt_of_le_of_ne hle fun heq => hn (UInt32.toNat_inj.mp heq)
  have hidx : ((u.head + u.n) % u.cap).toNat = (u.head.toNat + u.n.toNat) % u.cap.toNat :=
    toNat_ringSlot (by omega)
  have hn' : (u.n + 1).toNat = u.n.toNat + 1 := by
    rw [UInt32.toNat_add]
    exact Nat.mod_eq_of_lt (by change _ + 1 < _; omega)
  have hhead : u'.head = u.head := by rw [hu']
  have hcap : u'.cap = u.cap := by rw [hu']
  have hnum : u'.n.toNat = u.n.toNat + 1 := by rw [hu', ← hn']
  have hcells : (fun i => (u'.ts i, u'.bytes i)) =
      Function.update (fun i => (u.ts i, u.bytes i)) ((u.head.toNat + u.n.toNat) % u.cap.toNat)
        (t, nbytes) := by
    funext i
    rw [hu', hidx]
    rcases eq_or_ne i ((u.head.toNat + u.n.toNat) % u.cap.toNat) with rfl | hne
    · simp
    · simp [Function.update_of_ne hne]
  have hlist : u'.entries = u.entries ++ [(t, nbytes)] := by
    rw [entries_eq_ringList (by rw [hhead, hcap]; exact hh) (by rw [hnum, hcap]; omega)
      (by rw [hcap]; exact hc), entries_eq_ringList hh hle hc, hhead, hcap, hnum, hcells,
      ringList_push _ hlt]
  refine ⟨hlist, by rw [hhead, hcap]; exact hh, by rw [hnum, hcap]; omega,
    by rw [hcap]; exact hc, ?_⟩
  rw [hlist, List.map_append, List.sum_append, ← hb, hu']
  simp

/-- `uid_push` appends; a full ring loses its oldest entry first. -/
theorem entries_uidPush {u : UidState} (h : u.Ring) (t nbytes : UInt64) :
    (u.uidPush t nbytes).entries =
      (if u.n = u.cap then u.entries.tail else u.entries) ++ [(t, nbytes)] ∧
      (u.uidPush t nbytes).Ring := by
  by_cases hfull : u.n = u.cap
  · have hpos : u.n ≠ 0 := by
      rw [hfull]
      intro h0
      have := h.head_lt
      rw [h0] at this
      exact absurd this (Nat.not_lt_zero _)
    obtain ⟨hcons, hring⟩ := entries_eq_cons h hpos
    have hroom : u.dropHead.n ≠ u.dropHead.cap := by
      change u.n - 1 ≠ u.cap
      rw [hfull]
      intro heq
      simp at heq
    rw [if_pos hfull, hcons, List.tail_cons]
    exact entries_append hring hroom (by rw [uidPush, if_pos hfull])
  · rw [if_neg hfull]
    exact entries_append h hfull (by rw [uidPush, if_neg hfull])

/-- The loop of `uid_evict` drops the entries below the threshold. -/
theorem entries_evictLoop {u : UidState} (h : u.Ring) (th : UInt64) {k : ℕ} (hk : u.n.toNat ≤ k) :
    (evictLoop th k u).entries = evict Prod.fst th u.entries ∧ (evictLoop th k u).Ring := by
  induction k generalizing u with
  | zero =>
    have hnil : u.entries = [] := by
      rw [← List.length_eq_zero_iff, length_entries]
      omega
    exact ⟨by rw [evictLoop, hnil]; rfl, h⟩
  | succ k ih =>
    rw [evictLoop]
    by_cases hn : u.n = 0
    · have hnil : u.entries = [] := by
        rw [← List.length_eq_zero_iff, length_entries, hn]
        rfl
      rw [if_neg (by rw [hn]; exact fun hlt => absurd hlt.1 (by decide)), hnil]
      exact ⟨rfl, h⟩
    · obtain ⟨hcons, hring⟩ := entries_eq_cons h hn
      have hpos : 0 < u.n := UInt32.pos_iff_ne_zero.mpr hn
      have hn' : u.dropHead.n.toNat ≤ k := by
        have hlen := congrArg List.length hcons
        rw [List.length_cons, length_entries, length_entries] at hlen
        omega
      by_cases hold : u.ts u.head.toNat < th
      · rw [if_pos ⟨hpos, hold⟩, hcons, evict, List.dropWhile_cons_of_pos (by simpa using hold)]
        exact ih hring hn'
      · rw [if_neg fun hc => hold hc.2, hcons, evict,
          List.dropWhile_cons_of_neg (by simpa using hold), ← hcons]
        exact ⟨rfl, h⟩

/-- `uid_evict` drops the entries below the threshold from the front. -/
theorem entries_uidEvict {u : UidState} (h : u.Ring) (th : UInt64) :
    (u.uidEvict th).entries = evict Prod.fst th u.entries ∧ (u.uidEvict th).Ring :=
  entries_evictLoop h th le_rfl

end UidState

/-! ## The by-uid table -/

@[simp] theorem UidState.uidEvict_nOpen (u : UidState) (th : UInt64) :
    (u.uidEvict th).nOpen = u.nOpen := by
  have hloop : ∀ k (u : UidState), (UidState.evictLoop th k u).nOpen = u.nOpen := by
    intro k
    induction k with
    | zero => exact fun u => rfl
    | succ k ih =>
      intro u
      rw [UidState.evictLoop]
      split
      · exact ih _
      · rfl
  exact hloop _ u

@[simp] theorem UidState.uidPush_nOpen (u : UidState) (t nbytes : UInt64) :
    (u.uidPush t nbytes).nOpen = u.nOpen := by
  unfold UidState.uidPush
  split <;> rfl

/-- The ring of a node: everything but the count of open intents. -/
def UidState.ring (u : UidState) : UidState := { u with nOpen := 0 }

/-- The ring invariant does not depend on the counter beside the ring. -/
theorem UidState.Ring.of_ring {u u' : UidState} (h : u.Ring) (hring : u'.ring = u.ring) : u'.Ring := by
  have hu : u.ring.Ring := ⟨h.head_lt, h.n_le, h.cap_le, h.bsum_eq⟩
  rw [← hring] at hu
  exact ⟨hu.head_lt, hu.n_le, hu.cap_le, hu.bsum_eq⟩

theorem UidState.ring_uidPush (u : UidState) (t nbytes : UInt64) :
    (u.uidPush t nbytes).ring = u.ring.uidPush t nbytes := by
  by_cases h : u.n = u.cap
  · simp [UidState.uidPush, UidState.ring, UidState.dropHead, h]
  · simp [UidState.uidPush, UidState.ring, h]

theorem UidState.ring_uidEvict (u : UidState) (th : UInt64) :
    (u.uidEvict th).ring = u.ring.uidEvict th := by
  have hloop : ∀ k (u : UidState),
      (UidState.evictLoop th k u).ring = UidState.evictLoop th k u.ring := by
    intro k
    induction k with
    | zero => exact fun u => rfl
    | succ k ih =>
      intro u
      rw [UidState.evictLoop, UidState.evictLoop]
      by_cases h : 0 < u.n ∧ u.ts u.head.toNat < th
      · rw [if_pos h, if_pos (show 0 < u.ring.n ∧ u.ring.ts u.ring.head.toNat < th from h)]
        exact ih u.dropHead
      · rw [if_neg h, if_neg (show ¬(0 < u.ring.n ∧ u.ring.ts u.ring.head.toNat < th) from h)]
  exact hloop _ u

/-- The oldest entry goes while it is older than the threshold. -/
theorem UidState.uidEvict_eq (u : UidState) (th : UInt64) :
    u.uidEvict th = if 0 < u.n ∧ u.ts u.head.toNat < th then u.dropHead.uidEvict th else u := by
  unfold UidState.uidEvict
  by_cases h : 0 < u.n ∧ u.ts u.head.toNat < th
  · have hpos : 0 < u.n.toNat := UInt32.lt_iff_toNat_lt.mp h.1
    have hn : u.dropHead.n.toNat = u.n.toNat - 1 := by
      refine UInt32.toNat_sub_of_le _ _ ?_
      rw [UInt32.le_iff_toNat_le]
      exact hpos
    obtain ⟨k, hk⟩ : ∃ k, u.n.toNat = k + 1 := ⟨u.n.toNat - 1, by omega⟩
    rw [if_pos h, hn, hk, UidState.evictLoop, if_pos h]
    rfl
  · rw [if_neg h]
    cases u.n.toNat with
    | zero => rfl
    | succ k => rw [UidState.evictLoop, if_neg h]

/-- Two evictions are one, with the later threshold. -/
theorem UidState.uidEvict_uidEvict (u : UidState) (th th' : UInt64) :
    (u.uidEvict th).uidEvict th' = u.uidEvict (if th ≤ th' then th' else th) := by
  -- By induction on the number of entries, as the eviction drops them one by one.
  induction hk : u.n.toNat generalizing u with
  | zero =>
    have hempty : ∀ t, u.uidEvict t = u := fun t => by rw [UidState.uidEvict, hk]; rfl
    rw [hempty, hempty, hempty]
  | succ k ih =>
    by_cases h : 0 < u.n ∧ u.ts u.head.toNat < th
    · have hn : u.dropHead.n.toNat = k := by
        have hsub : u.dropHead.n.toNat = u.n.toNat - 1 := by
          refine UInt32.toNat_sub_of_le _ _ ?_
          rw [UInt32.le_iff_toNat_le]
          exact UInt32.lt_iff_toNat_lt.mp h.1
        omega
      have hmax : u.ts u.head.toNat < if th ≤ th' then th' else th := by
        split
        · exact UInt64.lt_of_lt_of_le h.2 ‹_›
        · exact h.2
      rw [u.uidEvict_eq th, if_pos h, ih u.dropHead hn]
      exact ((u.uidEvict_eq _).trans (if_pos ⟨h.1, hmax⟩)).symm
    · rw [u.uidEvict_eq th, if_neg h]
      split
      · rfl
      · rename_i hle
        -- What is not older than the later threshold is not older than the earlier one.
        rw [u.uidEvict_eq th, if_neg h, u.uidEvict_eq th', if_neg]
        rintro ⟨hpos, hlt⟩
        exact h ⟨hpos, UInt64.lt_trans hlt (UInt64.not_le.mp hle)⟩

theorem huid_lt (uid : UInt32) : huid uid < nbktUid := by
  have hle : huid uid ≤ 1023 := by
    rw [huid, UInt64.toNat_and]
    exact Nat.and_le_right
  change huid uid < 1024
  omega

namespace UidTable

/-- The table invariant: chains are placed, and a uid without a node has an empty one. -/
structure Ok (cfg : Config) (t : UidTable) : Prop where
  placed : Chains.Placed huid t.chain
  absent : ∀ uid, uid ∉ t.chain (huid uid) → t.node uid = UidState.zero (ringCap cfg)

variable {cfg : Config} {t : UidTable} {uid v : UInt32}

theorem uidFind_iff : t.uidFind uid = true ↔ uid ∈ t.chain (huid uid) := by
  simp [uidFind, List.find?_isSome]

theorem ok_init (cfg : Config) : (init cfg).Ok cfg := ⟨Chains.placed_empty, fun _ _ => rfl⟩

/-- `uid_get` gives the uid a node, which is empty if it is new. -/
theorem Ok.uidGet (h : t.Ok cfg) (uid : UInt32) :
    (t.uidGet cfg uid).Ok cfg ∧ (t.uidGet cfg uid).node = t.node ∧
      uid ∈ (t.uidGet cfg uid).chain (huid uid) := by
  unfold UidTable.uidGet
  by_cases hfind : t.uidFind uid = true
  · rw [if_pos hfind]
    exact ⟨h, rfl, uidFind_iff.mp hfind⟩
  · have hnot : uid ∉ t.chain (huid uid) := fun hm => hfind (uidFind_iff.mpr hm)
    have hnode : Function.update t.node uid (UidState.zero (ringCap cfg)) = t.node := by
      rw [← h.absent uid hnot, Function.update_eq_self]
    rw [if_neg hfind]
    refine ⟨⟨h.placed.push hnot, ?_⟩, hnode, Chains.mem_push.mpr (Or.inl ⟨rfl, rfl⟩)⟩
    intro v hv
    simp only [hnode]
    exact h.absent v fun hm => hv (Chains.mem_push.mpr (Or.inr hm))

/-- Writing to a node that exists. -/
theorem Ok.setNode (h : t.Ok cfg) (hm : uid ∈ t.chain (huid uid)) (u : UidState) :
    (t.setNode uid u).Ok cfg := by
  refine ⟨h.placed, fun v hv => ?_⟩
  have hne : v ≠ uid := by
    rintro rfl
    exact hv hm
  exact (Function.update_of_ne hne _ _).trans (h.absent v hv)

/-- What a check or a rotation does to the table: rings are evicted, nothing else changes. -/
structure Evicts (cfg : Config) (th : UInt64) (t t' : UidTable) : Prop where
  ok : t'.Ok cfg
  node : ∀ v, t'.node v = t.node v ∨ t'.node v = (t.node v).uidEvict th

theorem Evicts.refl (h : t.Ok cfg) (th : UInt64) : Evicts cfg th t t := ⟨h, fun _ => Or.inl rfl⟩

/-- Getting a node and evicting its ring. -/
theorem evicts_evictUid (h : t.Ok cfg) (uid : UInt32) (th : UInt64) :
    Evicts cfg th t ((t.uidGet cfg uid).evictUid uid th) ∧
      ((t.uidGet cfg uid).evictUid uid th).node =
        Function.update t.node uid ((t.node uid).uidEvict th) := by
  obtain ⟨hok, hnode, hm⟩ := h.uidGet uid
  have heq : ((t.uidGet cfg uid).evictUid uid th).node =
      Function.update t.node uid ((t.node uid).uidEvict th) := by
    rw [evictUid, UidTable.setNode, hnode]
  refine ⟨⟨hok.setNode hm _, fun v => ?_⟩, heq⟩
  rw [heq]
  rcases eq_or_ne v uid with rfl | hne
  · right
    rw [Function.update_self]
  · left
    rw [Function.update_of_ne hne]

/-- What `rate_allowed` answers and leaves behind. -/
theorem Ok.rateAllowed_spec (h : t.Ok cfg) (uid : UInt32) (now : UInt64) :
    Evicts cfg (winTh cfg now) t (t.rateAllowed cfg uid now).2 ∧
      (cfg.rateMaxInWindow ≠ 0 →
        (t.rateAllowed cfg uid now).2.node uid = (t.node uid).uidEvict (winTh cfg now) ∧
        ((t.rateAllowed cfg uid now).1 = true ↔
          ((t.node uid).uidEvict (winTh cfg now)).n < cfg.rateMaxInWindow)) := by
  unfold rateAllowed
  by_cases hoff : cfg.rateMaxInWindow = 0
  · rw [if_pos hoff]
    exact ⟨.refl h _, fun hon => absurd hoff hon⟩
  · rw [if_neg hoff]
    obtain ⟨hev, hnode⟩ := evicts_evictUid h uid (winTh cfg now)
    refine ⟨hev, fun _ => ?_⟩
    simp only [hnode, Function.update_self, decide_eq_true_eq, true_and]

/-- What the per-uid part of `bytes_allowed` answers and leaves behind. -/
theorem Ok.uidBytesAllowed_spec (h : t.Ok cfg) (uid : UInt32) (now nbytes : UInt64) :
    Evicts cfg (winTh cfg now) t (t.uidBytesAllowed cfg uid now nbytes).2 ∧
      (cfg.rateMaxBytesPerUid ≠ 0 →
        (t.uidBytesAllowed cfg uid now nbytes).2.node uid =
          (t.node uid).uidEvict (winTh cfg now) ∧
        ((t.uidBytesAllowed cfg uid now nbytes).1 = true ↔
          ((t.node uid).uidEvict (winTh cfg now)).bsum + nbytes ≤ cfg.rateMaxBytesPerUid)) := by
  unfold uidBytesAllowed
  by_cases hoff : cfg.rateMaxBytesPerUid = 0
  · rw [if_pos hoff]
    exact ⟨.refl h _, fun hon => absurd hoff hon⟩
  · rw [if_neg hoff]
    obtain ⟨hev, hnode⟩ := evicts_evictUid h uid (winTh cfg now)
    refine ⟨hev, fun _ => ?_⟩
    simp only [hnode, Function.update_self, decide_eq_true_eq, true_and]

/-- `rate_note` pushes onto the ring of the uid. -/
theorem Ok.rateNote_spec (h : t.Ok cfg) (uid : UInt32) (time nbytes : UInt64) :
    (t.rateNote cfg uid time nbytes).Ok cfg ∧
      (t.rateNote cfg uid time nbytes).node =
        if cfg.rateMaxInWindow = 0 then t.node
        else Function.update t.node uid ((t.node uid).uidPush time nbytes) := by
  unfold rateNote
  by_cases hoff : cfg.rateMaxInWindow = 0
  · simp only [if_pos hoff]
    exact ⟨h, trivial⟩
  · simp only [if_neg hoff]
    obtain ⟨hok, hnode, hm⟩ := h.uidGet uid
    refine ⟨hok.setNode hm _, ?_⟩
    rw [UidTable.setNode, hnode]

end UidTable

end AuditBroker
