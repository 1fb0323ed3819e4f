import AuditBroker.Reactor

/-!
# The reactor invariant

Every operation of the loop replaces the connection of one slot by itself with some progress, closes
one slot, or fills a free slot with a new connection.  `Reactor.Inv` holds initially and is kept by
each of the three (`Inv.replace`, `Inv.close`, `Inv.install`), hence by every iteration.  While the
entries of a poll set are served, the slots of the entries to come hold the connection that was
polled for or nothing: only the listener's entry fills slots, and it comes first.
-/

namespace AuditBroker

open Foundation

/-! ## The invariant -/

/-- What may have happened to a connection. -/
structure ConnLog.Ok (l : ConnLog) : Prop where
  handled_le : l.handled ≤ 1
  queued_le : l.queued ≤ 1
  /-- The deadline is set at the accept, and again when a response is queued. -/
  deadlines : l.deadlines.map Prod.fst = .accept :: List.replicate l.queued .queue

/-- The record of an open connection: nothing but its accept while it receives, and its deadline is
the last one that was set. -/
structure ConnLog.Fits (l : ConnLog) (c : Conn) : Prop where
  recv : c.state = .recv → l.handled = 0 ∧ l.queued = 0
  current : l.deadlines.getLast?.map Prod.snd = some c.deadline

/-- The invariant of the loop. -/
structure Reactor.Inv (cfg : MainCfg) (r : Reactor) : Prop where
  length : r.conns.length = cfg.maxConns
  active : r.active = r.conns.countP Option.isSome
  perUid : cfg.maxConnsPerUid ≠ 0 → ∀ uid, uidActive r.conns uid ≤ cfg.maxConnsPerUid.toNat
  id_lt : ∀ i c, r.slot i = some c → c.id < r.admitted
  id_inj : ∀ i j c c', r.slot i = some c → r.slot j = some c' → c.id = c'.id → i = j
  fresh : ∀ id, r.admitted ≤ id → r.log id = {}
  ok : ∀ id < r.admitted, (r.log id).Ok
  fits : ∀ i c, r.slot i = some c → (r.log c.id).Fits c
  applied : ∀ e ∈ r.applied, e.1 = e.2

namespace Reactor

variable {cfg : MainCfg} {r r' : Reactor} {i j : ℕ} {c c' : Conn} {l : ConnLog}

theorem slot_eq_some : r.slot i = some c ↔ ∃ h : i < r.conns.length, r.conns.get ⟨i, h⟩ = some c := by
  rw [slot, Option.join_eq_some_iff, List.getElem?_eq_some_iff]
  rfl

/-- A slot after one slot was changed. -/
theorem slot_set (hi : i < r.conns.length) {o : Option Conn} (hconns : r'.conns = r.conns.set i o) :
    r'.slot j = if j = i then o else r.slot j := by
  rw [slot, slot, hconns]
  by_cases h : j = i
  · subst h
    rw [List.getElem?_set_self hi, if_pos rfl]
    rfl
  · rw [List.getElem?_set_ne (Ne.symm h), if_neg h]

/-- Counting slots after one was changed. -/
theorem countP_set {p : Option Conn → Bool} (hc : r.slot i = some c) (o : Option Conn) :
    (r.conns.set i o).countP p + (if p (some c) then 1 else 0) =
      r.conns.countP p + (if p o then 1 else 0) := by
  obtain ⟨hi, hget⟩ := slot_eq_some.mp hc
  have hget : r.conns[i] = some c := hget
  rw [List.countP_set hi, hget]
  have hpos : p (some c) = true → 0 < r.conns.countP p := by
    intro hp
    exact List.countP_pos_iff.mpr ⟨some c, hget ▸ List.getElem_mem hi, hp⟩
  split
  · have := hpos ‹_›
    omega
  · omega

theorem Inv.initial (cfg : MainCfg) (b : St) : Inv cfg (Reactor.initial cfg b) := by
  have hslot : ∀ i, (Reactor.initial cfg b).slot i = none := by
    intro i
    rw [slot, Reactor.initial]
    simp only [List.getElem?_replicate]
    split <;> rfl
  refine ⟨by simp [Reactor.initial], ?_, ?_, by simp [hslot], by simp [hslot], fun _ _ => rfl, ?_,
    by simp [hslot], by simp [Reactor.initial]⟩
  · simp [Reactor.initial, List.countP_replicate]
  · intro _ uid
    simp [Reactor.initial, uidActive, List.countP_replicate]
  · intro id hid
    exact absurd hid (Nat.not_lt_zero _)

/-- The records of the other connections when one was changed. -/
theorem Inv.ok_update (h : Inv cfg r) (hok : l.Ok) (id : ℕ) :
    ∀ id' < r.admitted, (Function.update r.log id l id').Ok := by
  intro id' hlt
  rcases eq_or_ne id' id with rfl | hne
  · rw [Function.update_self]
    exact hok
  · rw [Function.update_of_ne hne]
    exact h.ok id' hlt

theorem Inv.fresh_update (h : Inv cfg r) (hc : r.slot i = some c) :
    ∀ id, r.admitted ≤ id → Function.update r.log c.id l id = {} := by
  intro id hle
  have := h.id_lt i c hc
  rw [Function.update_of_ne (by omega), h.fresh id hle]

/-- The connection of a slot makes progress. -/
theorem Inv.replace {d : Conn} (h : Inv cfg r) (hc : r.slot i = some c) (hid : d.id = c.id)
    (hactor : d.actor = c.actor) (hok : l.Ok) (hfits : l.Fits d)
    (hconns : r'.conns = r.conns.set i (some d)) (hactive : r'.active = r.active)
    (hadm : r'.admitted = r.admitted) (hlog : r'.log = Function.update r.log c.id l)
    (happ : r'.applied = r.applied) : Inv cfg r' := by
  obtain ⟨hi, -⟩ := slot_eq_some.mp hc
  have hslot : ∀ j, r'.slot j = if j = i then some d else r.slot j := fun j => slot_set hi hconns
  -- What a slot holds now, it held before, up to progress.
  have hback : ∀ j e, r'.slot j = some e → ∃ e₀, r.slot j = some e₀ ∧ e.id = e₀.id := by
    intro j e he
    rw [hslot] at he
    split at he
    · rename_i hji
      obtain rfl := Option.some.inj he
      exact ⟨c, by rw [hji, hc], hid⟩
    · exact ⟨e, he, rfl⟩
  refine ⟨by rw [hconns, List.length_set, h.length], ?_, ?_, ?_, ?_, ?_, ?_, ?_, ?_⟩
  · have hcount := countP_set (p := Option.isSome) hc (some d)
    rw [hactive, h.active, hconns]
    simp only [Option.isSome_some, if_true] at hcount
    omega
  · intro hcap uid
    have hcount := countP_set (p := fun s => s.any fun c => c.actor.uid == uid) hc (some d)
    simp only [Option.any_some, hactor] at hcount
    have := h.perUid hcap uid
    rw [uidActive] at this ⊢
    rw [hconns]
    omega
  · intro j e he
    obtain ⟨e₀, he₀, hide⟩ := hback j e he
    rw [hide, hadm]
    exact h.id_lt j e₀ he₀
  · intro j k e f he hf heq
    obtain ⟨e₀, he₀, hide⟩ := hback j e he
    obtain ⟨f₀, hf₀, hidf⟩ := hback k f hf
    exact h.id_inj j k e₀ f₀ he₀ hf₀ (by rw [← hide, ← hidf, heq])
  · rw [hadm, hlog]
    exact h.fresh_update hc
  · rw [hadm, hlog]
    exact h.ok_update hok c.id
  · intro j e he
    rw [hlog]
    rw [hslot] at he
    split at he
    · obtain rfl := Option.some.inj he
      rw [hid, Function.update_self]
      exact hfits
    · rename_i hji
      have hne : e.id ≠ c.id := fun heq => hji (h.id_inj j i e c he hc heq)
      rw [Function.update_of_ne hne]
      exact h.fits j e he
  · rw [happ]
    exact h.applied

/-- The connection of a slot is closed. -/
theorem Inv.closed (h : Inv cfg r) (hc : r.slot i = some c) (hok : l.Ok)
    (hconns : r'.conns = r.conns.set i none) (hactive : r'.active = r.active - 1)
    (hadm : r'.admitted = r.admitted) (hlog : r'.log = Function.update r.log c.id l)
    (happ : r'.applied = r.applied) : Inv cfg r' := by
  obtain ⟨hi, -⟩ := slot_eq_some.mp hc
  have hback : ∀ j d, r'.slot j = some d → j ≠ i ∧ r.slot j = some d := by
    intro j d hd
    rw [slot_set hi hconns] at hd
    split at hd
    · cases hd
    · exact ⟨‹_›, hd⟩
  refine ⟨by rw [hconns, List.length_set, h.length], ?_, ?_, ?_, ?_, ?_, ?_, ?_, ?_⟩
  · have hcount := countP_set (p := Option.isSome) hc none
    simp only [Option.isSome_some, Option.isSome_none, if_true, Bool.false_eq_true, if_false]
      at hcount
    rw [hactive, h.active, hconns]
    omega
  · intro hcap uid
    have hcount := countP_set (p := fun s => s.any fun c => c.actor.uid == uid) hc none
    simp only [Option.any_none, Bool.false_eq_true, if_false] at hcount
    have := h.perUid hcap uid
    rw [uidActive] at this ⊢
    rw [hconns]
    omega
  · intro j d hd
    rw [hadm]
    exact h.id_lt j d (hback j d hd).2
  · intro j k d e hd he heq
    exact h.id_inj j k d e (hback j d hd).2 (hback k e he).2 heq
  · rw [hadm, hlog]
    exact h.fresh_update hc
  · rw [hadm, hlog]
    exact h.ok_update hok c.id
  · intro j d hd
    obtain ⟨hji, hd⟩ := hback j d hd
    have hne : d.id ≠ c.id := fun heq => hji (h.id_inj j i d c hd hc heq)
    rw [hlog, Function.update_of_ne hne]
    exact h.fits j d hd
  · rw [happ]
    exact h.applied

theorem Inv.close (h : Inv cfg r) (hc : r.slot i = some c) : Inv cfg (r.close i) :=
  h.closed hc (h.ok c.id (h.id_lt i c hc)) rfl rfl rfl (Function.update_eq_self c.id r.log).symm rfl

/-- A free slot is filled with a new connection. -/
theorem Inv.install (a : Accept) {actor : Actor} (h : Inv cfg r) (hi : i < r.conns.length)
    (hfree : r.slot i = none)
    (hcap : cfg.maxConnsPerUid ≠ 0 → uidActive r.conns actor.uid < cfg.maxConnsPerUid.toNat) :
    Inv cfg (r.install cfg a actor i) := by
  set c : Conn :=
    { id := r.admitted, actor, deadline := monotonicPlus (a.clock 3) cfg.recvTimeoutMs } with hc
  have hnone : r.conns[i] = none := by
    rw [slot, List.getElem?_eq_getElem hi] at hfree
    exact hfree
  have hslot : ∀ j, (r.install cfg a actor i).slot j = if j = i then some c else r.slot j :=
    fun j => slot_set hi rfl
  have hconns : (r.install cfg a actor i).conns = r.conns.set i (some c) := rfl
  have hlog : (r.install cfg a actor i).log =
      Function.update r.log r.admitted { deadlines := [(.accept, c.deadline)] } := by
    rw [Reactor.install, note]
    simp only [h.fresh r.admitted le_rfl, List.nil_append, hc]
  have hcases : ∀ j d, (r.install cfg a actor i).slot j = some d →
      j = i ∧ d = c ∨ r.slot j = some d ∧ d.id < r.admitted := by
    intro j d hd
    rw [hslot] at hd
    split at hd
    · exact Or.inl ⟨‹_›, (Option.some.inj hd).symm⟩
    · exact Or.inr ⟨hd, h.id_lt j d hd⟩
  refine ⟨by rw [hconns, List.length_set, h.length], ?_, ?_, ?_, ?_, ?_, ?_, ?_, h.applied⟩
  · change r.active + 1 = _
    rw [h.active, hconns, List.countP_set hi, hnone]
    simp
  · intro hne uid
    have hle := h.perUid hne uid
    rw [uidActive] at hle ⊢
    rw [hconns, List.countP_set hi, hnone]
    by_cases huid : actor.uid = uid
    · have := hcap hne
      rw [uidActive, huid] at this
      simp [hc, huid]
      omega
    · simpa [hc, huid] using hle
  · intro j d hd
    rcases hcases j d hd with ⟨-, rfl⟩ | ⟨-, hlt⟩
    · exact Nat.lt_succ_self _
    · exact Nat.lt_succ_of_lt hlt
  · intro j k d e hd he heq
    rcases hcases j d hd with ⟨rfl, rfl⟩ | ⟨hd, hlt⟩ <;>
      rcases hcases k e he with ⟨rfl, rfl⟩ | ⟨he, hlt'⟩
    · rfl
    · exact absurd heq (by simp only [hc]; omega)
    · exact absurd heq (by simp only [hc]; omega)
    · exact h.id_inj j k d e hd he heq
  · intro id hle
    have hle : r.admitted + 1 ≤ id := hle
    rw [hlog, Function.update_of_ne (by omega), h.fresh id (by omega)]
  · intro id hlt
    have hlt : id < r.admitted + 1 := hlt
    rw [hlog]
    rcases eq_or_ne id r.admitted with rfl | hne
    · rw [Function.update_self]
      exact ⟨by simp, by simp, by simp⟩
    · rw [Function.update_of_ne hne]
      exact h.ok id (by omega)
  · intro j d hd
    rw [hlog]
    rcases hcases j d hd with ⟨-, rfl⟩ | ⟨hd, hlt⟩
    · rw [Function.update_self]
      exact ⟨by simp, by simp⟩
    · rw [Function.update_of_ne (by omega)]
      exact h.fits j d hd

/-- The invariant does not speak about the limiter, the broker and its requests. -/
theorem Inv.congr (h : Inv cfg r) (hconns : r'.conns = r.conns) (hactive : r'.active = r.active)
    (hadm : r'.admitted = r.admitted) (hlog : r'.log = r.log)
    (happ : ∀ e ∈ r'.applied, e.1 = e.2) : Inv cfg r' := by
  have hslot : ∀ j, r'.slot j = r.slot j := fun j => by rw [slot, slot, hconns]
  refine ⟨by rw [hconns, h.length], by rw [hactive, h.active, hconns], ?_, ?_, ?_, ?_, ?_, ?_, happ⟩
  · rw [hconns]
    exact h.perUid
  · intro j d hd
    rw [hslot] at hd
    rw [hadm]
    exact h.id_lt j d hd
  · intro j k d e hd he
    rw [hslot] at hd he
    exact h.id_inj j k d e hd he
  · rw [hadm, hlog]
    exact h.fresh
  · rw [hadm, hlog]
    exact h.ok
  · intro j d hd
    rw [hslot] at hd
    rw [hlog]
    exact h.fits j d hd

/-! ## One iteration -/

/-- No slot holds a connection that it did not hold before. -/
def NoNew (r r' : Reactor) : Prop :=
  ∀ j d, r'.slot j = some d → ∃ d₀, r.slot j = some d₀ ∧ d.id = d₀.id

theorem NoNew.refl (r : Reactor) : NoNew r r := fun _ d hd => ⟨d, hd, rfl⟩

theorem NoNew.of_set (hc : r.slot i = some c) {o : Option Conn}
    (hconns : r'.conns = r.conns.set i o) (ho : ∀ d, o = some d → d.id = c.id) : NoNew r r' := by
  obtain ⟨hi, -⟩ := slot_eq_some.mp hc
  intro j d hd
  rw [slot_set hi hconns] at hd
  split at hd
  · rename_i hji
    exact ⟨c, by rw [hji, hc], ho d hd⟩
  · exact ⟨d, hd, rfl⟩

/-- One change that `accept_new` makes: the limiter counts an attempt, or a connection is put into a
free slot. -/
inductive Accepts (cfg : MainCfg) (r : Reactor) : Reactor → Prop
  | limiter (l : List ConnUid) : Accepts cfg r { r with climiter := l }
  | install (a : Accept) {actor : Actor} {i : ℕ} (lt : i < r.conns.length)
      (free : r.slot i = none)
      (room : cfg.maxConnsPerUid ≠ 0 →
        uidActive r.conns actor.uid < cfg.maxConnsPerUid.toNat) :
      Accepts cfg r (r.install cfg a actor i)

/-- What every such change keeps, `accept_new` keeps. -/
theorem acceptNew_rule {P : Reactor → Prop} (hP : ∀ r r', P r → Accepts cfg r r' → P r')
    (as : List Accept) (h : P r) : P (acceptNew cfg as r) := by
  induction as generalizing r with
  | nil => exact h
  | cons a as ih =>
    rw [acceptNew]
    split
    · exact h
    split
    · exact ih h
    rename_i actor hpeer
    have hlim : P { r with climiter := (connAllowed cfg a.clock actor.uid r.climiter).2 } :=
      hP _ _ h (.limiter _)
    simp only
    split
    · exact ih hlim
    split
    · exact ih hlim
    rename_i hcap
    split
    · exact hlim
    rename_i i hfind
    obtain ⟨hi, hisnone, -⟩ := List.findIdx?_eq_some_iff_getElem.mp hfind
    apply ih
    refine hP _ _ hlim (.install a hi ?_ fun hne => ?_)
    · rw [slot, List.getElem?_eq_getElem hi, Option.isNone_iff_eq_none.mp hisnone]
      rfl
    · simp only [not_and, not_le] at hcap
      exact hcap hne

/-- `accept_new` keeps the invariant. -/
theorem Inv.acceptNew (as : List Accept) (h : Inv cfg r) : Inv cfg (acceptNew cfg as r) := by
  refine acceptNew_rule (fun r r' hr hacc => ?_) as h
  cases hacc with
  | limiter => exact hr.congr rfl rfl rfl rfl hr.applied
  | install a hi hfree hroom => exact hr.install a hi hfree hroom

/-- What `accept_new` does to the table: the connections that were there stay, and those that come
have received nothing yet. -/
structure Admitted (r r' : Reactor) : Prop where
  events : r'.events = r.events
  admitted_le : r.admitted ≤ r'.admitted
  keeps : ∀ j d, r.slot j = some d → r'.slot j = some d
  slots : ∀ j d, r'.slot j = some d →
    r.slot j = some d ∨ r.admitted ≤ d.id ∧ d.state = .recv ∧ d.recv = {}
  filled : ∀ id, r.admitted ≤ id → id < r'.admitted → ∃ j d, r'.slot j = some d ∧ d.id = id

theorem Admitted.refl (r : Reactor) : Admitted r r :=
  ⟨rfl, le_rfl, fun _ _ hd => hd, fun _ _ hd => Or.inl hd,
    fun _ hle hlt => absurd hlt (not_lt.mpr hle)⟩

theorem Admitted.accepts {r₁ : Reactor} (h : Admitted r r₁) (hacc : Accepts cfg r₁ r') :
    Admitted r r' := by
  cases hacc with
  | limiter => exact ⟨h.events, h.admitted_le, h.keeps, h.slots, h.filled⟩
  | @install a actor i hi hfree =>
    have hkeep : ∀ j d, r₁.slot j = some d → (r₁.install cfg a actor i).slot j = some d := by
      intro j d hd
      have hji : j ≠ i := by
        rintro rfl
        exact absurd (hd.symm.trans hfree) (by simp)
      rw [slot_set hi rfl, if_neg hji]
      exact hd
    refine ⟨h.events, h.admitted_le.trans (Nat.le_succ _), fun j d hd => hkeep j d (h.keeps j d hd),
      fun j d hd => ?_, fun id hle hlt => ?_⟩
    · rw [slot_set hi rfl] at hd
      split at hd
      · obtain rfl := Option.some.inj hd
        exact Or.inr ⟨h.admitted_le, rfl, rfl⟩
      · exact h.slots j d hd
    · rcases Nat.lt_succ_iff_lt_or_eq.mp hlt with hlt | rfl
      · obtain ⟨j, d, hd, rfl⟩ := h.filled id hle hlt
        exact ⟨j, d, hkeep j d hd, rfl⟩
      · exact ⟨i, _, by rw [slot_set hi rfl, if_pos rfl], rfl⟩

theorem admitted_acceptNew (cfg : MainCfg) (as : List Accept) (r : Reactor) :
    Admitted r (acceptNew cfg as r) :=
  acceptNew_rule (fun _ _ h hacc => h.accepts hacc) as (.refl r)

/-- A response is queued for a receiving connection, or the connection is closed. -/
theorem Inv.queue {r₁ : Reactor} {clock : Timespec} {resp : Option Bytes} (h : Inv cfg r)
    (hc : r.slot i = some c) (hid : c'.id = c.id) (hactor : c'.actor = c.actor)
    (hlq : l.queued = 0) (hlh : l.handled ≤ 1) (hld : l.deadlines = (r.log c.id).deadlines)
    (hrecv : c.state = .recv) (hconns : r₁.conns = r.conns) (hactive : r₁.active = r.active)
    (hadm : r₁.admitted = r.admitted) (hlog : r₁.log = Function.update r.log c.id l)
    (happ : r₁.applied = r.applied) :
    Inv cfg (r₁.queue cfg i c' clock resp) ∧ NoNew r (r₁.queue cfg i c' clock resp) := by
  have hfits := h.fits i c hc
  have hdl : l.deadlines.map Prod.fst = [.accept] := by
    rw [hld, (h.ok c.id (h.id_lt i c hc)).deadlines, (hfits.recv hrecv).2]
    rfl
  unfold Reactor.queue
  split
  · refine ⟨h.closed hc (l := l) ⟨hlh, by omega, by rw [hdl, hlq]; rfl⟩ ?_ ?_ hadm hlog happ, ?_⟩
    · rw [Reactor.close, hconns]
    · rw [Reactor.close, hactive]
    · exact NoNew.of_set hc (show _ = r.conns.set i none by rw [Reactor.close, hconns]) (by simp)
  · rename_i out hout
    set dl := monotonicPlus clock cfg.sendTimeoutMs
    set l' : ConnLog :=
      { l with queued := l.queued + 1, deadlines := l.deadlines ++ [(.queue, dl)] } with hl'
    have hset : (r₁.put i { c' with out, state := .send, deadline := dl }).conns =
        r.conns.set i (some { c' with out, state := .send, deadline := dl }) := by
      rw [put, hconns]
    refine ⟨h.replace (d := { c' with out, state := .send, deadline := dl }) (l := l') hc hid hactor
      ?_ ?_ hset hactive hadm ?_ happ, NoNew.of_set hc hset ?_⟩
    · refine ⟨hlh, by simp [hl', hlq], ?_⟩
      rw [hl', List.map_append, hdl, hlq]
      rfl
    · exact ⟨by simp, by simp [hl']⟩
    · simp only [note, put, hlog, hid, Function.update_self, Function.update_idem, hl']
    · rintro _ ⟨⟩
      exact hid

/-- A connection that stays as it is but for what it received or has left to send. -/
theorem Inv.put (h : Inv cfg r) (hc : r.slot i = some c) (hid : c'.id = c.id)
    (hactor : c'.actor = c.actor) (hstate : c'.state = c.state) (hd : c'.deadline = c.deadline) :
    Inv cfg (r.put i c') ∧ NoNew r (r.put i c') := by
  have hfits := h.fits i c hc
  refine ⟨h.replace hc hid hactor (h.ok c.id (h.id_lt i c hc)) ⟨?_, ?_⟩ rfl rfl rfl
    (Function.update_eq_self c.id r.log).symm rfl, NoNew.of_set hc rfl ?_⟩
  · rw [hstate]
    exact hfits.recv
  · rw [hd]
    exact hfits.current
  · rintro _ ⟨⟩
    exact hid

theorem Inv.close_noNew (h : Inv cfg r) (hc : r.slot i = some c) :
    Inv cfg (r.close i) ∧ NoNew r (r.close i) :=
  ⟨h.close hc, NoNew.of_set hc rfl (by simp)⟩

section Serving

variable {S : Site} {io : SlotIo} {v : Revents} {p : Pass}

/-- A complete request is handled. -/
theorem Inv.handle (h : Inv cfg r) (hc : r.slot i = some c) (hrecv : c.state = .recv)
    (hid : c'.id = c.id) (hactor : c'.actor = c.actor) :
    Inv cfg (r.handle S cfg i c' io) ∧ NoNew r (r.handle S cfg i c' io) := by
  have hnone := (h.fits i c hc).recv hrecv
  unfold Reactor.handle
  split
  · exact h.queue hc hid hactor hnone.2 (by omega) rfl hrecv rfl rfl rfl
      (Function.update_eq_self c.id r.log).symm rfl
  · refine h.queue (l := { r.log c.id with handled := (r.log c.id).handled + 1 }) hc hid hactor
      hnone.2 (by simp [hnone.1]) rfl hrecv rfl rfl rfl ?_ rfl
    rw [note, hid]

/-- A connection is served. -/
theorem Inv.serveConn (h : Inv cfg r) (hc : r.slot i = some c) :
    Inv cfg (r.serveConn S cfg i c io v) ∧ NoNew r (r.serveConn S cfg i c io v) := by
  unfold Reactor.serveConn
  split
  · rename_i hcond
    have hnone := (h.fits i c hc).recv hcond.1
    have hqueue : ∀ recv clock resp,
        Inv cfg (r.queue cfg i { c with recv } clock resp) ∧
          NoNew r (r.queue cfg i { c with recv } clock resp) := fun recv clock resp =>
      h.queue hc rfl rfl hnone.2 (by omega) rfl hcond.1 rfl rfl rfl
        (Function.update_eq_self c.id r.log).symm rfl
    split
    · exact h.put hc rfl rfl rfl rfl
    · exact h.handle hc hcond.1 rfl rfl
    · exact hqueue _ _ _
    · exact hqueue _ _ _
    · exact h.close_noNew hc
    · exact h.close_noNew hc
  split
  · split
    · exact h.put hc rfl rfl rfl rfl
    · exact h.close_noNew hc
    · exact h.close_noNew hc
  split
  · exact h.close_noNew hc
  · exact ⟨h, NoNew.refl r⟩

theorem Inv.reapSlot {now : Timespec} (h : Inv cfg r) (i : ℕ) : Inv cfg (r.reapSlot now i) := by
  unfold Reactor.reapSlot
  split
  · exact h
  · split
    · exact h.close ‹_›
    · exact h

theorem Inv.reap {now : Timespec} (h : Inv cfg r) : Inv cfg (r.reap cfg now) := by
  unfold Reactor.reap
  generalize List.range cfg.maxConns = is
  induction is generalizing r with
  | nil => exact h
  | cons i is ih => exact ih (h.reapSlot i)

/-- Every entry is that of a slot, which holds the connection polled for. -/
def Polled (r : Reactor) (es : List PollEntry) : Prop :=
  ∀ e ∈ es, ∃ i c, e = .slot i c.id ∧ r.slot i = some c

/-- Every entry is that of a slot, which holds the connection polled for, or nothing. -/
def Watched (r : Reactor) (es : List PollEntry) : Prop :=
  ∀ e ∈ es, ∃ i id, e = .slot i id ∧ ∀ c, r.slot i = some c → c.id = id

section Entries

variable {es : List PollEntry} {e : PollEntry}

/-- Filling free slots does not touch those that are polled. -/
theorem Polled.watched (h : Polled r es) (hadm : Admitted r r') : Watched r' es := by
  intro e he
  obtain ⟨i, c, rfl, hc⟩ := h e he
  refine ⟨i, c.id, rfl, fun d hd => ?_⟩
  rw [Option.some.inj (hd.symm.trans (hadm.keeps i c hc))]

theorem Watched.of_noNew (h : Watched r es) (hnew : NoNew r r') : Watched r' es := by
  intro e he
  obtain ⟨i, id, rfl, hid⟩ := h e he
  refine ⟨i, id, rfl, fun c hc => ?_⟩
  obtain ⟨c₀, hc₀, heq⟩ := hnew i c hc
  rw [heq]
  exact hid c₀ hc₀

/-- The poll set has an entry for each connection; that of the listener can only come first. -/
theorem pollSet_cases (cfg : MainCfg) (r : Reactor) :
    ∃ es, Polled r es ∧ (r.pollSet cfg = es ∨ r.pollSet cfg = .listener :: es) := by
  refine ⟨(List.range cfg.maxConns).filterMap fun i => (r.slot i).map fun c => .slot i c.id,
    fun e he => ?_, ?_⟩
  · obtain ⟨i, -, hi⟩ := List.mem_filterMap.mp he
    obtain ⟨c, hc, rfl⟩ := Option.map_eq_some_iff.mp hi
    exact ⟨i, c, rfl, hc⟩
  · unfold pollSet
    split
    · exact Or.inr rfl
    · exact Or.inl rfl

end Entries

/-- The record of what was applied takes an event of the connection polled for. -/
theorem Inv.apply {id : ℕ} (h : Inv cfg r) (hid : c.id = id) :
    Inv cfg { r with applied := r.applied ++ [(id, c.id)] } := by
  refine h.congr rfl rfl rfl rfl fun e he => ?_
  rcases List.mem_append.mp he with he | he
  · exact h.applied e he
  · obtain rfl := List.mem_singleton.mp he
    exact hid.symm

/-- The listener's entry is served. -/
theorem Inv.serve_listener (h : Inv cfg r) :
    Inv cfg (r.serve S cfg p v .listener) ∧ Admitted r (r.serve S cfg p v .listener) := by
  unfold Reactor.serve
  simp only
  split
  · exact ⟨h.acceptNew p.accepts, admitted_acceptNew cfg p.accepts r⟩
  · exact ⟨h, Admitted.refl r⟩

/-- One entry of a slot is served. -/
theorem Inv.serve_slot {id : ℕ} (h : Inv cfg r) (hid : ∀ c, r.slot i = some c → c.id = id) :
    Inv cfg (r.serve S cfg p v (.slot i id)) ∧ NoNew r (r.serve S cfg p v (.slot i id)) := by
  unfold Reactor.serve
  simp only
  split
  · exact ⟨h, NoNew.refl r⟩
  split
  · exact ⟨h, NoNew.refl r⟩
  · rename_i c hc
    exact (h.apply (hid c hc)).serveConn hc

/-- The entries of slots are served. -/
theorem Inv.serveAll_slots {revents : ℕ → Revents} {es : List PollEntry} {k : ℕ} (h : Inv cfg r)
    (hw : Watched r es) : Inv cfg (r.serveAll S cfg p revents k es) := by
  induction es generalizing r k with
  | nil => exact h
  | cons e es ih =>
    obtain ⟨i, id, rfl, hid⟩ := hw e List.mem_cons_self
    obtain ⟨hinv, hnew⟩ := h.serve_slot (S := S) (p := p) (v := revents k) hid
    have hrest : Watched r es := fun e he => hw e (List.mem_cons_of_mem _ he)
    exact ih hinv (hrest.of_noNew hnew)

/-- The first entries of a poll set are served. -/
theorem Inv.serveAll {revents : ℕ → Revents} (n : ℕ) (h : Inv cfg r) :
    Inv cfg (r.serveAll S cfg p revents 0 ((r.pollSet cfg).take n)) := by
  obtain ⟨es, hes, hset⟩ := pollSet_cases cfg r
  have htake : ∀ n, Polled r (es.take n) := fun n e he => hes e (List.mem_of_mem_take he)
  rcases hset with hset | hset
  · rw [hset]
    exact h.serveAll_slots ((htake n).watched (.refl r))
  · rw [hset]
    cases n with
    | zero => exact h
    | succ n =>
      rw [List.take_succ_cons, Reactor.serveAll]
      obtain ⟨hinv, hadm⟩ := h.serve_listener (S := S) (p := p) (v := revents 0)
      exact hinv.serveAll_slots ((htake n).watched hadm)

/-- The state within an iteration, when the first `n` entries of its poll set have been served. -/
def during (S : Site) (cfg : MainCfg) (p : Pass) (n : ℕ) (r : Reactor) : Reactor :=
  let r := r.reap cfg p.now
  match p.poll with
  | .ready revents => r.serveAll S cfg p revents 0 ((r.pollSet cfg).take n)
  | _ => r

theorem Inv.during (n : ℕ) (h : Inv cfg r) : Inv cfg (r.during S cfg p n) := by
  unfold Reactor.during
  simp only
  split
  · exact h.reap.serveAll n
  · exact h.reap

theorem Inv.iterate (h : Inv cfg r) : Inv cfg (r.iterate S cfg p).2 := by
  unfold Reactor.iterate
  simp only
  split
  · exact h.reap
  · exact h.reap
  · exact h.reap
  · rename_i revents hpoll
    have hreap : Inv cfg (r.reap cfg p.now) := h.reap
    rw [← List.take_length (l := (r.reap cfg p.now).pollSet cfg)]
    exact hreap.serveAll _

theorem Inv.loop (ps : List Pass) (h : Inv cfg r) : Inv cfg (r.loop S cfg ps) := by
  induction ps generalizing r with
  | nil => exact h
  | cons p ps ih =>
    rw [Reactor.loop]
    have hit := h.iterate (S := S) (p := p)
    split
    · rename_i heq
      rw [heq] at hit
      exact ih hit
    · rename_i heq
      rw [heq] at hit
      exact hit

end Serving

/-- The invariant of the loop, as a statement about its table, its counter and what was done for
each accepted connection. -/
structure Sound (cfg : MainCfg) (r : Reactor) : Prop where
  /-- The counter is the number of slots with an open descriptor. -/
  active_eq : r.active = r.conns.countP Option.isSome
  active_mem : 0 ≤ r.active ∧ r.active ≤ cfg.maxConns
  /-- No uid holds more slots than it may. -/
  per_uid : cfg.maxConnsPerUid ≠ 0 → ∀ uid, uidActive r.conns uid ≤ cfg.maxConnsPerUid.toNat
  /-- Poll results were applied to the connection they were polled for. -/
  applied : ∀ e ∈ r.applied, e.1 = e.2
  /-- The broker handled at most one request of a connection. -/
  handled : ∀ id, (r.log id).handled ≤ 1
  /-- At most one response was queued for it. -/
  queued : ∀ id, (r.log id).queued ≤ 1
  /-- Its deadline was set at its accept, and once more exactly when a response was queued. -/
  deadlines : ∀ id < r.admitted, (r.log id).deadlines.map Prod.fst =
    .accept :: List.replicate (r.log id).queued .queue
  /-- The deadline it has is the one that was set last. -/
  current : ∀ i c, r.slot i = some c → c.id < r.admitted ∧
    (r.log c.id).deadlines.getLast?.map Prod.snd = some c.deadline

theorem Inv.sound (h : Inv cfg r) : Sound cfg r := by
  have hle := List.countP_le_length (p := Option.isSome) (l := r.conns)
  have hlog : ∀ id, (r.log id).handled ≤ 1 ∧ (r.log id).queued ≤ 1 := by
    intro id
    rcases lt_or_ge id r.admitted with hlt | hge
    · exact ⟨(h.ok id hlt).handled_le, (h.ok id hlt).queued_le⟩
    · simp [h.fresh id hge]
  refine ⟨h.active, ?_, h.perUid, h.applied, fun id => (hlog id).1, fun id => (hlog id).2,
    fun id hlt => (h.ok id hlt).deadlines, fun i c hc => ⟨h.id_lt i c hc, (h.fits i c hc).current⟩⟩
  rw [h.active]
  rw [h.length] at hle
  omega

/-! ## The broker behind the reactor -/

section Broker

variable {S : Site} {b : St} {io : SlotIo} {v : Revents} {p : Pass}

/-- The broker's state is the result of the requests that were handed to it. -/
def Ran (S : Site) (b : St) (r : Reactor) : Prop := r.broker = run S b r.events

theorem Ran.queue {clock : Timespec} {resp : Option Bytes} (h : Ran S b r) :
    Ran S b (r.queue cfg i c clock resp) := by
  unfold Reactor.queue
  split <;> exact h

theorem Ran.handle (h : Ran S b r) : Ran S b (r.handle S cfg i c io) := by
  unfold Reactor.handle
  split
  · exact h.queue
  · refine Ran.queue ?_
    rw [Ran, run_concat, ← h]

theorem Ran.serveConn (h : Ran S b r) : Ran S b (r.serveConn S cfg i c io v) := by
  unfold Reactor.serveConn
  split
  · split
    · exact h
    · exact h.handle
    · exact h.queue
    · exact h.queue
    · exact h
    · exact h
  split
  · split <;> exact h
  split <;> exact h

theorem Ran.acceptNew (as : List Accept) (h : Ran S b r) : Ran S b (acceptNew cfg as r) := by
  refine acceptNew_rule (fun r r' hr hacc => ?_) as h
  cases hacc with
  | limiter => exact hr
  | install => exact hr

theorem Ran.serve {e : PollEntry} (h : Ran S b r) : Ran S b (r.serve S cfg p v e) := by
  unfold Reactor.serve
  cases e with
  | listener =>
    simp only
    split
    · exact h.acceptNew p.accepts
    · exact h
  | slot i id =>
    simp only
    split
    · exact h
    split
    · exact h
    · rename_i c hc
      have happ : Ran S b { r with applied := r.applied ++ [(id, c.id)] } := h
      exact happ.serveConn

theorem Ran.serveAll {revents : ℕ → Revents} {es : List PollEntry} {k : ℕ} (h : Ran S b r) :
    Ran S b (r.serveAll S cfg p revents k es) := by
  induction es generalizing r k with
  | nil => exact h
  | cons e es ih => exact ih h.serve

theorem Ran.reap {now : Timespec} (h : Ran S b r) : Ran S b (r.reap cfg now) := by
  unfold Reactor.reap
  generalize List.range cfg.maxConns = is
  induction is generalizing r with
  | nil => exact h
  | cons i is ih =>
    refine ih ?_
    unfold Reactor.reapSlot
    split
    · exact h
    · split <;> exact h

/-- What the loop does to the broker is a run of requests. -/
theorem broker_loop (ps : List Pass) :
    Ran S b ((Reactor.initial cfg b).loop S cfg ps) := by
  have hloop : ∀ r, Ran S b r → Ran S b (r.loop S cfg ps) := by
    induction ps with
    | nil => exact fun r h => h
    | cons p ps ih =>
      intro r h
      have hit : Ran S b (r.iterate S cfg p).2 := by
        unfold Reactor.iterate
        simp only
        split
        · exact h.reap
        · exact h.reap
        · exact h.reap
        · exact h.reap.serveAll
      rw [Reactor.loop]
      split
      · rename_i heq
        rw [heq] at hit
        exact ih _ hit
      · rename_i heq
        rw [heq] at hit
        exact hit
  exact hloop _ rfl

end Broker

end Reactor

/-- The reactor invariant: it holds after every sequence of iterations, and at every point of the
next one, whatever poll, accept, reads, writes and the clock do. -/
theorem reactor_sound (S : Site) (cfg : MainCfg) (b : St) (ps : List Pass) (p : Pass) (n : ℕ) :
    ((Reactor.initial cfg b).loop S cfg ps).Sound cfg ∧
      (((Reactor.initial cfg b).loop S cfg ps).during S cfg p n).Sound cfg := by
  have h := (Reactor.Inv.initial cfg b).loop (S := S) ps
  exact ⟨h.sound, (h.during n).sound⟩

end AuditBroker
