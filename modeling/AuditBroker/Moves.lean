import AuditBroker.Disk
import AuditBroker.Queue

/-!
# Atomic moves

A commit is more than one change: rings are evicted, a line is appended, the tables are updated, a
rotation may follow.  `Move` is one such change with its effect on the files; `Step.moves` cuts every
step of a handler into moves.  What every move preserves holds after every request.
-/

namespace AuditBroker

open Foundation

variable {S : Site} {C : Ctx} {s s' : St} {line : Bytes} {act : Act} {install : Tables → Tables}

/-! ## Moves -/

/-- The byte quota of a uid has passed. -/
def St.BytesOk (s : St) (uid : UInt32) (nbytes : UInt64) : Prop :=
  s.cfg.rateMaxBytesPerUid ≠ 0 → (s.uids.node uid).bsum + nbytes ≤ s.cfg.rateMaxBytesPerUid

/-- What the code has checked before it appends a line. -/
structure Appendable (S : Site) (C : Ctx) (s : St) (line : Bytes) (act : Act)
    (install : Tables → Tables) : Prop where
  healthy : s.poisoned = false
  allowed : Allowed S C s line act install
  rate : s.RateOk (C.entry s line act).chargedUid
  bytes : s.BytesOk (C.entry s line act).chargedUid (C.entry s line act).size

/-- One change of the state. -/
inductive Move (S : Site) (C : Ctx) : St → St → Prop
  /-- The clock is read. -/
  | clock (s : St) : Move S C s (s.readClock C.env).2
  /-- Rings are evicted. -/
  | check {s : St} {t : UidTable}
      (evicts : UidTable.Evicts s.cfg (winTh s.cfg s.lastClock) s.uids t) :
      Move S C s { s with uids := t }
  /-- A line is torn. -/
  | torn {s : St} {w : World} {b : Bytes} (healthy : s.poisoned = false) (frag : newline ∉ b)
      (fs_eq : w.fs = s.fs.extend s.fd b) : Move S C s { s with toWorld := w, poisoned := true }
  /-- A line lands, but its append fails. -/
  | landed {s : St} {w : World} {line : Bytes} {act : Act} {install : Tables → Tables}
      (ok : Appendable S C s line act install)
      (fs_eq : w.fs = s.fs.extend s.fd (line ++ [newline])) :
      Move S C s
        { s with toWorld := w, poisoned := true, journal := s.journal ++ [C.entry s line act]
                 landed := some (C.entry s line act) }
  /-- A line is appended and charged. -/
  | append {s : St} {w : World} {n : UInt64} {line : Bytes} {act : Act}
      {install : Tables → Tables} (ok : Appendable S C s line act install)
      (fs_eq : w.fs = s.fs.extend s.fd (line ++ [newline])) :
      Move S C s
        (({ s with toWorld := w, segBytes := n,
                   journal := s.journal ++ [C.entry s line act] } : St).charge install
          (C.entry s line act))
  /-- A rotation leaves the sink alone. -/
  | stay {s s' : St} (healthy : s.poisoned = false) (stays : Stays S C.env s s') : Move S C s s'
  /-- A rotation puts the carried records at the sink's path. -/
  | turn {s s' : St} (healthy : s.poisoned = false) (turns : Turns S C.env s s') : Move S C s s'

/-- A sequence of moves. -/
abbrev Moves (S : Site) (C : Ctx) : St → St → Prop := Relation.ReflTransGen (Move S C)

/-! ## Evicted rings -/

/-- A rate check stays passed when rings are evicted. -/
theorem St.RateOk.evicts {uid : UInt32} {th : UInt64} {t : UidTable} (h : s.RateOk uid)
    (hev : UidTable.Evicts s.cfg th s.uids t) : ({ s with uids := t } : St).RateOk uid := by
  intro hon
  have hlt := h hon
  rcases hev.node uid with hn | hn
  · exact hn ▸ hlt
  · exact hn ▸ UInt32.lt_of_le_of_lt (UidState.n_uidEvict_le _ _) hlt

theorem UidTable.Evicts.nOpen_eq {cfg : Config} {th : UInt64} {t t' : UidTable}
    (h : UidTable.Evicts cfg th t t') (v : UInt32) : (t'.node v).nOpen = (t.node v).nOpen := by
  rcases h.node v with hn | hn
  · rw [hn]
  · rw [hn, UidState.uidEvict_nOpen]

/-- What the code has checked does not depend on the rings. -/
theorem Allowed.of_evicts (h : Allowed S C s line act install) {th : UInt64} {t : UidTable}
    (hev : UidTable.Evicts s.cfg th s.uids t) :
    Allowed S C { s with uids := t } line act install := by
  cases h with
  | intent h₁ h₂ h₃ h₄ h₅ h₆ h₇ =>
    exact .intent h₁ h₂ h₃ h₄ h₅ ⟨h₆.1, (hev.nOpen_eq C.peer.uid).symm ▸ h₆.2⟩ h₇
  | outcome h₁ h₂ h₃ h₄ h₅ =>
    exact .outcome (s := { s with uids := t }) h₁ h₂ h₃ h₄ h₅
  | emit h₁ h₂ h₃ => exact .emit h₁ h₂ h₃
  | issue h₁ h₂ h₃ h₄ h₅ h₆ h₇ h₈ h₉ h₁₀ =>
    exact .issue (s := { s with uids := t }) h₁ h₂ h₃ h₄ h₅ h₆ h₇ h₈ h₉ h₁₀
  | redeem h₁ h₂ h₃ h₄ h₅ h₆ h₇ h₈ h₉ h₁₀ h₁₁ =>
    exact .redeem (s := { s with uids := t }) h₁ h₂ h₃ h₄ h₅ h₆ h₇ h₈ h₉ h₁₀ h₁₁

theorem Allowed.isLine (h : Allowed S C s line act install) : IsLine S.codec line := by
  cases h with
  | intent _ _ _ _ _ _ hline => exact isLine_rabBuildAudit hline
  | outcome _ _ _ _ hline => exact isLine_rabBuildAudit hline
  | emit _ _ hline => exact isLine_rabBuildAudit hline
  | issue _ _ _ _ _ _ _ _ _ hline => exact isLine_receiptLine hline
  | redeem _ _ _ _ _ _ _ _ _ _ hline => exact isLine_receiptLine hline

/-! ## Steps as moves -/

/-- An append is one move: torn, landed, or, with the charge, appended. -/
theorem appendLine_move (ok : Appendable S C s line act install) :
    (∀ s₂, s.appendLine C.env (C.entry s line act) = (false, s₂) → Move S C s s₂) ∧
      ∀ s₂, s.appendLine C.env (C.entry s line act) = (true, s₂) →
        Move S C s (s₂.charge install (C.entry s line act)) := by
  have hline : newline ∉ (C.entry s line act).line := ok.allowed.isLine.newline_notMem
  obtain ⟨b, hfs, hb⟩ := World.rabSinkAppend_spec C.env s.fd s.toWorld hline
  unfold St.appendLine
  constructor
  · intro s₂ h
    split at h
    · simp at h
    · rename_i w heq
      rw [heq] at hfs hb
      obtain rfl : b = line ++ [newline] := by simpa [Ctx.entry] using hb
      rw [← (Prod.mk.inj h).2]
      exact .landed ok hfs
    · rename_i w heq
      rw [heq] at hfs hb
      rw [← (Prod.mk.inj h).2]
      exact .torn ok.healthy (by simpa using hb) hfs
  · intro s₂ h
    split at h
    · rename_i w heq
      rw [heq] at hfs hb
      obtain rfl : b = line ++ [newline] := by simpa [Ctx.entry] using hb
      rw [← (Prod.mk.inj h).2]
      exact .append ok hfs
    · simp at h
    · simp at h

/-- What a sequence of moves keeps of the accounting table and the files. -/
structure Kept (s : St) : Prop where
  uids : s.uids.Ok s.cfg
  fs : s.fs.Ok

theorem Fs.Ok.extend {fs : Fs} (h : fs.Ok) (i : ℕ) (b : Bytes) : (fs.extend i b).Ok :=
  ⟨h.dir_lt, h.undo_lt⟩

theorem Move.kept (h : Move S C s s') (hk : Kept s) : Kept s' := by
  cases h with
  | clock => exact ⟨hk.uids, hk.fs⟩
  | check hev => exact ⟨hev.ok, hk.fs⟩
  | torn _ _ hfs => exact ⟨hk.uids, show Fs.Ok _ from hfs ▸ hk.fs.extend _ _⟩
  | landed _ hfs => exact ⟨hk.uids, show Fs.Ok _ from hfs ▸ hk.fs.extend _ _⟩
  | append ok hfs =>
    obtain ⟨hcfg, hok⟩ := ok.allowed.install_uids (t := s.toTables) hk.uids
    rw [← hcfg] at hok
    exact ⟨(hok.rateNote_spec _ _ _).1, show Fs.Ok _ from hfs ▸ hk.fs.extend _ _⟩
  | stay _ hst =>
    obtain ⟨now, hev, -⟩ := hst.evicts
    exact ⟨hst.cfg_eq ▸ hev.ok, hst.frame.ok hk.fs⟩
  | turn _ htu =>
    obtain ⟨now, hev, -⟩ := htu.evicts
    exact ⟨htu.cfg_eq ▸ hev.ok, htu.fs_ok⟩

theorem maybeRotate_moves (hE : C.env.UnlinksWork) (hk : Kept s) (hp : s.poisoned = false) :
    Moves S C s (maybeRotate S C.env s) := by
  unfold maybeRotate
  split
  · exact .refl
  · rcases rotate_stays_or_turns (S := S) hE hk.uids hk.fs with ⟨-, h⟩ | ⟨-, h⟩
    · exact .single (.stay hp h)
    · exact .single (.turn hp h)

/-- A step of a handler is a sequence of moves. -/
theorem Step.moves (hE : C.env.UnlinksWork) (hk : Kept s) (h : Step S C s s') :
    Moves S C s s' := by
  cases h with
  | clock => exact .single (.clock s)
  | check hev => exact .single (.check hev)
  | @commit line act install healthy allowed clocked rate =>
    obtain ⟨t, hev, hq | ⟨hbytes, happ⟩⟩ :=
      commit_cases (S := S) (C := C) hk.uids line act install
    · rw [hq]
      exact .single (.check hev)
    have hcheck : Move S C s { s with uids := t } := .check hev
    have ok : Appendable S C { s with uids := t } line act install :=
      ⟨healthy, allowed.of_evicts hev, rate.evicts hev, hbytes⟩
    obtain ⟨hfail, hdone⟩ := appendLine_move ok
    rcases happ with ⟨s₂, happ, heq⟩ | ⟨s₂, happ, heq⟩
    · rw [heq]
      exact (Relation.ReflTransGen.single hcheck).tail (hfail s₂ happ)
    · rw [heq]
      have hmove := hdone s₂ happ
      have hp₂ : s₂.poisoned = false := (appendLine_durable happ).2.1.trans healthy
      have hk₂ := hmove.kept (hcheck.kept hk)
      exact ((Relation.ReflTransGen.single hcheck).tail hmove).trans
        (maybeRotate_moves hE hk₂ hp₂)

/-- The steps of a handler are a sequence of moves. -/
theorem Steps.moves (hE : C.env.UnlinksWork) (hk : Kept s) (h : Steps S C s s') :
    Moves S C s s' ∧ Kept s' := by
  have hkept : ∀ {s₁ s₂}, Moves S C s₁ s₂ → Kept s₁ → Kept s₂ := by
    intro s₁ s₂ hm hk₁
    induction hm with
    | refl => exact hk₁
    | tail _ hmove ih => exact hmove.kept ih
  induction h with
  | refl => exact ⟨.refl, hk⟩
  | tail _ hstep ih =>
    have hmoves := hstep.moves hE ih.2
    exact ⟨ih.1.trans hmoves, hkept hmoves ih.2⟩

end AuditBroker
