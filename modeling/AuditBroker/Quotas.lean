import AuditBroker.Flood

/-!
# The per-uid quotas

Over the whole history of a run, in whatever segments its lines ended up, the lines charged to a uid
within one window number at most `rate_max_in_window`, and their sizes sum up to at most
`rate_max_bytes_per_uid`.  Every line passed both checks when it was appended (`RateGuard`), so the
bounds are those of a sliding window that admits each item after looking back (`Admits`).
-/

namespace AuditBroker

open Foundation

variable {S : Site} {cfg : Config} {fs : Fs} {evs : List Event} {J : List Entry} {e : Entry}

/-! ## Windows over natural numbers -/

theorem toNat_winTh (cfg : Config) (now : UInt64) :
    (winTh cfg now).toNat = now.toNat - cfg.window := by
  have hwindow := toNat_window cfg
  simp only [winTh]
  split
  · rename_i hlt
    rw [UInt64.toNat_sub_of_le _ _ (UInt64.le_of_lt hlt), hwindow]
  · rename_i hge
    have hle := UInt64.le_iff_toNat_le.mp (UInt64.not_lt.mp hge)
    rw [hwindow] at hle
    change 0 = _
    omega

theorem winTh_le_iff {now x : UInt64} :
    winTh cfg now ≤ x ↔ now.toNat ≤ x.toNat + cfg.window := by
  rw [UInt64.le_iff_toNat_le, toNat_winTh]
  omega

/-- A sum of 64-bit words does not wrap when it is short and its words are small. -/
theorem toNat_sum_eq {l : List UInt64} (hsmall : ∀ x ∈ l, x.toNat < 2 ^ 32)
    (hlen : l.length ≤ 2 ^ 31) :
    l.sum.toNat = (l.map UInt64.toNat).sum ∧ l.sum.toNat ≤ l.length * 2 ^ 32 := by
  induction l with
  | nil => exact ⟨rfl, Nat.zero_le _⟩
  | cons x l ih =>
    rw [List.length_cons] at hlen
    obtain ⟨hsum, hle⟩ := ih (fun y hy => hsmall y (by simp [hy])) (by omega)
    have hx := hsmall x (by simp)
    have hmul : l.length * 2 ^ 32 ≤ 2 ^ 31 * 2 ^ 32 := Nat.mul_le_mul_right _ (by omega)
    have hadd : (x + l.sum).toNat = x.toNat + l.sum.toNat := by
      rw [UInt64.toNat_add]
      exact Nat.mod_eq_of_lt (by omega)
    rw [List.sum_cons, List.map_cons, List.sum_cons, List.length_cons, hadd, hsum, Nat.succ_mul]
    exact ⟨rfl, by omega⟩

/-! ## Admission -/

section Admission

variable {L : List (UInt64 × UInt64)}

/-- The charges of a uid are those of its lines. -/
theorem charges_eq_map (hon : cfg.rateMaxInWindow ≠ 0) (v : UInt32) (J : List Entry) :
    charges cfg v J =
      (J.filter fun x => x.chargedUid = v).map fun x => (x.now, x.size) := by
  rw [charges, if_neg hon]
  rfl

/-- The lines of the last window are in every recent part of the charges. -/
theorem filter_charges_eq (hon : cfg.rateMaxInWindow ≠ 0) {now : UInt64} {v : UInt32}
    (hL : Recent Prod.fst (winTh cfg now) (charges cfg v J) L) :
    ((J.filter fun x => x.chargedUid = v).filter
        fun x => now.toNat ≤ x.now.toNat + cfg.window).map (fun x => (x.now, x.size)) =
      L.filter fun x => now.toNat ≤ x.1.toNat + cfg.window := by
  rw [← hL.filter_eq fun x hx => winTh_le_iff.mpr (of_decide_eq_true hx), charges_eq_map hon,
    List.filter_map]
  rfl

/-- A line that passed the rate check is admitted by the window of that many lines. -/
theorem RateGuard.admits_count (h : RateGuard cfg J e) (hon : cfg.rateMaxInWindow ≠ 0) :
    Admits Entry.chargedUid (fun e => e.now.toNat) (fun _ => 1) cfg.window
      cfg.rateMaxInWindow.toNat J e := by
  obtain ⟨L, hL, hlen, -⟩ := h hon
  have hlines := congrArg List.length (filter_charges_eq hon hL)
  rw [List.length_map] at hlines
  have hle : (L.filter fun x => e.now.toNat ≤ x.1.toNat + cfg.window).length ≤ L.length :=
    List.length_filter_le _ _
  rw [Admits, totalOf_one, hlines]
  omega

/-- A line that passed the byte check is admitted by the window of that many bytes, as long as no
line is too long for the sum. -/
theorem RateGuard.admits_bytes (h : RateGuard cfg J e) (hon : cfg.rateMaxInWindow ≠ 0)
    (hbytes : cfg.rateMaxBytesPerUid ≠ 0) (hcap : cfg.rateMaxInWindow.toNat ≤ 2 ^ 31)
    (hJ : ∀ x ∈ J, x.length < 2 ^ 32) (he : e.length < 2 ^ 32) :
    Admits Entry.chargedUid (fun e => e.now.toNat) Entry.length cfg.window
      cfg.rateMaxBytesPerUid.toNat J e := by
  obtain ⟨L, hL, hlen, hquota⟩ := h hon
  have hsize : ∀ x : Entry, x.length < 2 ^ 32 → x.size.toNat = x.length := fun x hx =>
    toNat_size (by omega)
  -- every charge of the window is the size of a line
  have hsmall : ∀ n ∈ L.map Prod.snd, n.toNat < 2 ^ 32 := by
    intro n hn
    obtain ⟨y, hy, rfl⟩ := List.mem_map.mp hn
    obtain ⟨old, hold, -⟩ := hL
    have hmem : y ∈ charges cfg e.chargedUid J := by
      rw [hold]
      exact List.mem_append_right _ hy
    rw [charges_eq_map hon] at hmem
    obtain ⟨x, hx, rfl⟩ := List.mem_map.mp hmem
    have hlt := hJ x (List.mem_filter.mp hx).1
    change x.size.toNat < _
    rw [hsize x hlt]
    exact hlt
  obtain ⟨hsum, hle⟩ := toNat_sum_eq hsmall (by rw [List.length_map]; omega)
  have hquota := UInt64.le_iff_toNat_le.mp (hquota hbytes)
  rw [UInt64.toNat_add, hsize e he, Nat.mod_eq_of_lt, hsum] at hquota
  · refine le_trans (Nat.add_le_add_right ?_ _) hquota
    -- the lines of the window weigh as much as their charges, which are some of those in the ring
    have hlines := congrArg (fun l => (l.map fun x : UInt64 × UInt64 => x.2.toNat).sum)
      (filter_charges_eq hon hL)
    simp only [List.map_map] at hlines
    have hweights : ((J.filter fun x => x.chargedUid = e.chargedUid).filter
          fun x => e.now.toNat ≤ x.now.toNat + cfg.window).map Entry.length =
        ((J.filter fun x => x.chargedUid = e.chargedUid).filter
          fun x => e.now.toNat ≤ x.now.toNat + cfg.window).map
            ((fun x : UInt64 × UInt64 => x.2.toNat) ∘ fun x : Entry => (x.now, x.size)) := by
      refine List.map_congr_left fun x hx => ?_
      have hmem : x ∈ J := (List.mem_filter.mp (List.mem_filter.mp hx).1).1
      exact (hsize x (hJ x hmem)).symm
    rw [totalOf, hweights, hlines, List.map_map]
    exact (List.filter_sublist.map _).sum_le_sum fun _ _ => Nat.zero_le _
  · have hmul : (L.map Prod.snd).length * 2 ^ 32 ≤ 2 ^ 31 * 2 ^ 32 := by
      rw [List.length_map]
      exact Nat.mul_le_mul_right _ (by omega)
    omega

end Admission

/-! ## Whole histories -/

/-- The lines of a history that are charged to a uid and were accepted in the window that ends at
some time. -/
def windowLines (cfg : Config) (v : UInt32) (t : ℕ) (J : List Entry) : List Entry :=
  (J.filter fun e => e.chargedUid = v).filter fun e =>
    t ≤ e.now.toNat + cfg.window ∧ e.now.toNat ≤ t

/-- A receipt line is charged to the uid that opened the intent. -/
theorem chargedUid_of_receipt (hJ : Guarded (EntryGuard S) J) {J₁ J₂ : List Entry}
    (hsplit : J = J₁ ++ e :: J₂) {cid : Buf cidMax} {r : Receipt} (hact : e.act = .receipt cid r) :
    ∃ e₀ ∈ J₁, ∃ oi, e₀.act = .intent cid oi ∧ e.chargedUid = e₀.peer.uid := by
  obtain ⟨hJ₁, hg⟩ := hJ.guard_of_eq hsplit
  have hopener : ∃ oi, ledger J₁ cid = some oi ∧ r.actorUid = oi.actor.uid := by
    rcases hg.receipt hact with hi | hr
    · obtain ⟨oi, hoi, -, huid, -⟩ := hi.ledger_eq
      exact ⟨oi, hoi, huid⟩
    · obtain ⟨oi, r₀, hoi, hr₀, -, heq⟩ := hr.opened
      refine ⟨oi, hoi, ?_⟩
      rw [heq]
      exact (bound_of_ledger hJ₁ hoi hr₀).1
  obtain ⟨oi, hoi, huid⟩ := hopener
  obtain ⟨e₀, he₀, hact₀⟩ := opened_of_ledger hJ₁ hoi
  obtain ⟨J₃, J₄, -, -, hg₀⟩ := hJ₁.exists_of_mem he₀
  have hactor : oi.actor = e₀.peer := (hg₀.intent hact₀).actor_eq
  refine ⟨e₀, he₀, _, hact₀, ?_⟩
  rw [Entry.chargedUid, hact]
  exact huid.trans (by rw [hactor])

/-- The per-uid quotas hold over whole histories, for rings of at most `2 ^ 31` cells: in every run
from an empty sink under one configuration, with rotations, faults, crashes and restarts anywhere and a
clock that does not go back, the lines charged to a uid in a window number at most
`rate_max_in_window`, and, if no line has `2 ^ 32` bytes or more, their sizes sum up to at most
`rate_max_bytes_per_uid`.  Audit lines are charged to the peer, receipt lines to the opener. -/
theorem uid_quotas_hold (hsink : EmptySink S fs) (hunlinks : UnlinksRun evs)
    (hids : FreshIds S evs) (hu : Under cfg evs)
    (hf : ForwardRun S (St.initial fs) evs) (hon : cfg.rateMaxInWindow ≠ 0)
    (hcap : cfg.rateMaxInWindow.toNat ≤ 2 ^ 31) (hJ : J = (run S (St.initial fs) evs).journal) :
    (∀ v t, (windowLines cfg v t J).length ≤ cfg.rateMaxInWindow.toNat ∧
      (cfg.rateMaxBytesPerUid ≠ 0 → (∀ e ∈ J, e.length < 2 ^ 32) →
        ((windowLines cfg v t J).map Entry.length).sum ≤ cfg.rateMaxBytesPerUid.toNat)) ∧
    ∀ J₁ e J₂, J = J₁ ++ e :: J₂ →
      (∀ cid r, e.act = .receipt cid r →
        ∃ e₀ ∈ J₁, ∃ oi, e₀.act = .intent cid oi ∧ e.chargedUid = e₀.peer.uid) ∧
      ((∀ cid r, e.act ≠ .receipt cid r) → e.chargedUid = e.peer.uid) := by
  have hguarded := (rateTraced_run hsink hunlinks hids hu hcap hf).windowed.guarded
  have hentry := (traced_run hsink hunlinks hids).inv.guarded
  rw [← hJ] at hguarded hentry
  refine ⟨fun v t => ⟨?_, fun hbytes hlines => ?_⟩, fun J₁ e J₂ hsplit => ⟨?_, ?_⟩⟩
  · have hcount := totalOf_interval_le
      (hguarded.imp fun J₁ e J₂ _ hg => RateGuard.admits_count hg hon) v t
    rwa [totalOf_one] at hcount
  · refine totalOf_interval_le (hguarded.imp fun J₁ e J₂ hsplit hg => ?_) v t
    refine RateGuard.admits_bytes hg hon hbytes hcap (fun x hx => hlines x ?_) (hlines e ?_)
    · rw [hsplit]
      exact List.mem_append_left _ hx
    · rw [hsplit]
      simp
  · exact fun cid r hact => chargedUid_of_receipt hentry hsplit hact
  · intro hact
    unfold Entry.chargedUid
    split
    · rename_i cid r heq
      exact absurd heq (hact cid r)
    · rfl

/-- In the sample run the intent and its receipt are two lines of uid 1000 in one window. -/
theorem uid_quotas_hold_openRun :
    (windowLines Sample.config 1000 2000000
        (run Sample.site (St.initial Sample.fs) Sample.openRun).journal).length = 2 ∧
      (windowLines Sample.config 1000 2000000
        (run Sample.site (St.initial Sample.fs) Sample.openRun).journal).length ≤
          Sample.config.rateMaxInWindow.toNat := by
  have hquotas := uid_quotas_hold Sample.emptySink Sample.unlinksRun_openRun
    Sample.freshIds_openRun Sample.under_openRun Sample.forwardRun_openRun (by decide) (by decide) rfl
  exact ⟨by decide +kernel, (hquotas.1 1000 2000000).1⟩

/-! ## A quota that is exceeded -/

/-- The lines of a window, when all lines are charged to one uid. -/
theorem map_windowLines {v : UInt32} (hv : ∀ e ∈ J, e.chargedUid = v) (t : ℕ) :
    (windowLines cfg v t J).map Entry.length =
      ((J.map fun e => (e.now, e.line)).filter
        fun x => t ≤ x.1.toNat + cfg.window ∧ x.1.toNat ≤ t).map fun x => x.2.length + 1 := by
  have hall : J.filter (fun e => decide (e.chargedUid = v)) = J := by
    rw [List.filter_eq_self]
    exact fun e he => decide_eq_true (hv e he)
  rw [windowLines, hall, List.filter_map, List.map_map]
  rfl

/-- With `rate_max_in_window = 2 ^ 32 - 1` the byte quota is exceeded.  The first flood moves the head
of the ring to its last cell but one, the three lines after it wrap around, and their eviction takes a
stale size from the running sum, which falls below zero; the second flood then passes one line more
than the quota allows.  No call fails and nothing is restarted or rotated. -/
theorem uid_quota_exceeded :
    EmptySink Sample.site Sample.fs ∧ UnlinksRun Sample.exceedingRun ∧
      FreshIds Sample.site Sample.exceedingRun ∧
      Under (Sample.maxConfig 0 Sample.exceededQuota) Sample.exceedingRun ∧
      ForwardRun Sample.site (St.initial Sample.fs) Sample.exceedingRun ∧
      (Sample.maxConfig 0 Sample.exceededQuota).check = none ∧
      (Sample.maxConfig 0 Sample.exceededQuota).rateMaxInWindow ≠ 0 ∧
      (Sample.maxConfig 0 Sample.exceededQuota).rateMaxBytesPerUid ≠ 0 ∧
      (∀ e ∈ (run Sample.site (St.initial Sample.fs) Sample.exceedingRun).journal,
        e.length < 2 ^ 32) ∧
      (Sample.maxConfig 0 Sample.exceededQuota).rateMaxBytesPerUid.toNat <
        ((windowLines (Sample.maxConfig 0 Sample.exceededQuota) 1000 6000000
          (run Sample.site (St.initial Sample.fs) Sample.exceedingRun).journal).map
            Entry.length).sum := by
  have hemits := Sample.emitRun_exceeded
  obtain ⟨P, hposts, hshort⟩ := Sample.posts_exceeded
  have hlen : (Sample.emitLine 6000000 "xx").length = 400 := by decide +kernel
  refine ⟨Sample.emptySink, hemits.unlinks, hemits.ids, hemits.under, hemits.forward,
    Sample.check_maxConfig _ _, (Sample.floodConfig_maxConfig _ _).on,
    (by decide : Sample.exceededQuota ≠ 0), fun e he => ?_, ?_⟩
  · have hmem : (e.now, e.line) ∈ P ++ List.replicate (Sample.floodLength + 1)
        (6000000, Sample.emitLine 6000000 "xx") := by
      rw [← hposts]
      exact List.mem_map_of_mem he
    have hle : e.line.length ≤ 400 := by
      rcases List.mem_append.mp hmem with hP | hrep
      · exact hshort _ hP
      · obtain ⟨-, hline⟩ := Prod.mk.inj (List.eq_of_mem_replicate hrep)
        rw [hline, hlen]
    rw [Entry.length]
    omega
  · have hwindow : (Sample.maxConfig 0 Sample.exceededQuota).window = 1000000 := by decide
    have hquota : (Sample.maxConfig 0 Sample.exceededQuota).rateMaxBytesPerUid.toNat =
        Sample.floodLength * 401 + 400 := by decide
    rw [map_windowLines hemits.described.charged, hposts, hwindow, hquota, List.filter_append,
      List.map_append, List.sum_append, List.filter_replicate, if_pos (by decide),
      List.map_replicate, List.sum_replicate_nat, hlen]
    unfold Sample.floodLength
    omega

end AuditBroker
