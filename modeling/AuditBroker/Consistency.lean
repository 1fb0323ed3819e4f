import AuditBroker.Replay
import AuditBroker.Sample
import Mathlib.Data.List.Chain

/-!
# The logs that reconstruction accepts

`apply_stored` decides record by record, with the open set, the set of closed ids and a flag in each
intent.  Here the logs it accepts are described operation by operation: the records of one
correlation id are an opening record, then checkpoints that repeat it and receipts that belong to
it, then at most one outcome (`Consistent`); and a first receipt has a verifier that no other open
operation has (`VerifiersFresh`).

In between stands one automaton per correlation id (`Phase.next`).  The replay runs all of them at
once: its tables mirror their states (`Mirrors`), and it refuses a record exactly when the automaton
of its id does or the verifier clashes.
-/

namespace AuditBroker

open Foundation

/-! ## Records of one operation -/

/-- What a record says about its operation. -/
inductive Item where
  /-- An intent, or the checkpoint of one. -/
  | opening (checkpoint : Bool) (s : StoredIntent)
  /-- A receipt transition, or the checkpoint of a receipt. -/
  | receipt (checkpoint : Bool) (r : Receipt)
  | outcome

/-- The operation a record is about.  Audit records of another phase and rate records are about
none. -/
def Stored.subject? : Stored → Option (Buf cidMax × Item)
  | .audit s phase =>
    if phase = phaseIntent then some (s.cid, .opening false s)
    else if phase = phaseOutcome then some (s.cid, .outcome)
    else none
  | .checkpoint s => some (s.cid, .opening true s)
  | .receipt cid isCheckpoint r => some (cid, .receipt isCheckpoint r)
  | .rate _ _ => none

/-- The records about one operation, in order. -/
def itemsOf (cid : Buf cidMax) (sts : List Stored) : List Item :=
  sts.filterMap fun st => st.subject?.bind fun p => if p.1 = cid then some p.2 else none

/-- The receipts among the records of an operation. -/
def receiptsIn (items : List Item) : List (Bool × Receipt) :=
  items.filterMap fun
    | .receipt checkpoint r => some (checkpoint, r)
    | _ => none

/-- A record that may stand between the opening record of an operation and its outcome. -/
def Belongs (checkpoint : Bool) (s : StoredIntent) : Item → Prop
  | .opening checkpoint' s' => checkpoint' = true ∧ s'.binding = s.binding ∧ s'.actor = s.actor
  | .receipt checkpoint' r => r.actorUid = s.actor.uid ∧ r.verb = s.operation ∧
      r.resource = s.resource ∧ (checkpoint' = true → checkpoint = true)
  | .outcome => False

/-- A receipt record after another: it repeats it, or it is the redemption. -/
def Follows (a b : Receipt) : Prop :=
  b.state = a.state ∧ b.acceptedTimeUs = a.acceptedTimeUs ∨ a.state = .issued ∧ b.state = .redeemed

/-- The receipts of an operation. -/
structure ReceiptsOk (rs : List (Bool × Receipt)) : Prop where
  /-- The first is not a redeemed transition. -/
  first : ∀ f ∈ rs.head?, ¬(f.1 = false ∧ f.2.state = .redeemed)
  /-- All agree with the first on the bound fields. -/
  bound : ∀ f ∈ rs.head?, ∀ x ∈ rs, receiptBoundEq f.2 x.2 = true
  follows : (rs.map Prod.snd).IsChain Follows

/-- The records of an operation that is open: its opening record and what may follow it, up to the
receipt it holds. -/
def Opened (items : List Item) (checkpoint : Bool) (s : StoredIntent) (r : Option Receipt) : Prop :=
  ∃ rest, items = .opening checkpoint s :: rest ∧ (∀ x ∈ rest, Belongs checkpoint s x) ∧
    ReceiptsOk (receiptsIn rest) ∧ (receiptsIn rest).getLast?.map Prod.snd = r

/-- The records of an operation that a log may have: none, those of an open operation, or these and
an outcome. -/
def Consistent (items : List Item) : Prop :=
  items = [] ∨ (∃ checkpoint s r, Opened items checkpoint s r) ∨
    ∃ xs checkpoint s r, items = xs ++ [.outcome] ∧ Opened xs checkpoint s r

/-- The operation is open with a receipt of this verifier. -/
def HoldsVerifier (items : List Item) (verifier : Buf hex64Max) : Prop :=
  ∃ checkpoint s r, Opened items checkpoint s (some r) ∧ r.verifier = verifier

/-- Whenever an operation gets its first receipt, no other operation is open with a receipt of the
same verifier. -/
def VerifiersFresh (sts : List Stored) : Prop :=
  ∀ pre cid checkpoint r post, sts = pre ++ .receipt cid checkpoint r :: post →
    receiptsIn (itemsOf cid pre) = [] →
      ∀ cid', cid' ≠ cid → ¬HoldsVerifier (itemsOf cid' pre) r.verifier

/-! ## One automaton per operation -/

/-- How far an operation has come. -/
inductive Phase where
  | fresh
  | opened (checkpoint : Bool) (s : StoredIntent) (receipt : Option Receipt)
  | closed

/-- A receipt record fits the intent it names. -/
def ReceiptFits (checkpoint : Bool) (s : StoredIntent) (checkpoint' : Bool) (r : Receipt) : Prop :=
  r.actorUid = s.actor.uid ∧ r.verb = s.operation ∧ r.resource = s.resource ∧
    (checkpoint' = true → checkpoint = true)

instance (checkpoint : Bool) (s : StoredIntent) (checkpoint' : Bool) (r : Receipt) :
    Decidable (ReceiptFits checkpoint s checkpoint' r) := by
  unfold ReceiptFits
  infer_instance

instance (a b : Receipt) : Decidable (Follows a b) := by
  unfold Follows
  infer_instance

/-- One record of the operation; nothing if it is refused. -/
def Phase.next : Phase → Item → Option Phase
  | .fresh, .opening checkpoint s => some (.opened checkpoint s none)
  | .opened checkpoint s r, .opening checkpoint' s' =>
    if checkpoint' = true ∧ s'.binding = s.binding ∧ s'.actor = s.actor then
      some (.opened checkpoint s r)
    else none
  | .opened checkpoint s none, .receipt checkpoint' r =>
    if ReceiptFits checkpoint s checkpoint' r ∧ ¬(checkpoint' = false ∧ r.state = .redeemed) then
      some (.opened checkpoint s (some r))
    else none
  | .opened checkpoint s (some r₀), .receipt checkpoint' r =>
    if ReceiptFits checkpoint s checkpoint' r ∧ receiptBoundEq r₀ r = true ∧ Follows r₀ r then
      some (.opened checkpoint s (some r))
    else none
  | .opened _ _ _, .outcome => some .closed
  | _, _ => none

/-- The state of the automaton after some records. -/
def phaseOf (items : List Item) : Option Phase := items.foldlM Phase.next .fresh

theorem phaseOf_concat (items : List Item) (x : Item) :
    phaseOf (items ++ [x]) = (phaseOf items).bind (Phase.next · x) := by
  simp [phaseOf]

theorem receiptsIn_concat (items : List Item) (x : Item) :
    receiptsIn (items ++ [x]) = receiptsIn items ++
      match x with
      | .receipt checkpoint r => [(checkpoint, r)]
      | _ => [] := by
  cases x <;> simp [receiptsIn]

/-- All fields but the state and the accepted time. -/
theorem receiptBoundEq_iff {a b : Receipt} :
    receiptBoundEq a b = true ↔
      { a with state := b.state, acceptedTimeUs := b.acceptedTimeUs } = b := by
  obtain ⟨as, av, au, averb, ares, aps, aph, ai, attl, ab, aa⟩ := a
  obtain ⟨bs, bv, bu, bverb, bres, bps, bph, bi, bttl, bb, ba⟩ := b
  simp only [receiptBoundEq, Bool.and_eq_true, beq_iff_eq, Receipt.mk.injEq]
  tauto

theorem receiptBoundEq_trans_iff {a b c : Receipt} (h : receiptBoundEq a b = true) :
    receiptBoundEq a c = true ↔ receiptBoundEq b c = true := by
  rw [receiptBoundEq_iff] at h ⊢
  rw [receiptBoundEq_iff, ← h]

theorem receiptBoundEq_refl (a : Receipt) : receiptBoundEq a a = true := by
  rw [receiptBoundEq_iff]

/-- One more receipt. -/
theorem receiptsOk_concat {rs : List (Bool × Receipt)} {x : Bool × Receipt} :
    ReceiptsOk (rs ++ [x]) ↔ ReceiptsOk rs ∧
      match rs.getLast?.map Prod.snd with
      | none => ¬(x.1 = false ∧ x.2.state = .redeemed)
      | some r₀ => receiptBoundEq r₀ x.2 = true ∧ Follows r₀ x.2 := by
  rcases List.eq_nil_or_concat' rs with rfl | ⟨rs', l, rfl⟩
  · constructor
    · intro h
      exact ⟨⟨by simp, by simp, by simp⟩, h.first x rfl⟩
    · rintro ⟨-, h⟩
      refine ⟨?_, ?_, by simp⟩
      · rintro f ⟨⟩
        exact h
      · rintro f ⟨⟩ y hy
        rw [List.nil_append, List.mem_singleton] at hy
        rw [hy]
        exact receiptBoundEq_refl x.2
  · -- The first receipt stays the first, and the last one is the one to follow.
    obtain ⟨f, hf⟩ : ∃ f, (rs' ++ [l]).head? = some f :=
      Option.isSome_iff_exists.mp (by simp)
    have hhead : (rs' ++ [l] ++ [x]).head? = some f := by
      rw [List.head?_append, hf]
      rfl
    have hlast : (rs' ++ [l]).getLast?.map Prod.snd = some l.2 := by simp
    have hlmem : l ∈ rs' ++ [l] := by simp
    have hchain : ((rs' ++ [l] ++ [x]).map Prod.snd).IsChain Follows ↔
        ((rs' ++ [l]).map Prod.snd).IsChain Follows ∧ Follows l.2 x.2 := by
      rw [List.map_append, List.isChain_append, List.getLast?_map, hlast]
      simp
    rw [hlast]
    constructor
    · intro h
      have hbound : ∀ y ∈ rs' ++ [l] ++ [x], receiptBoundEq f.2 y.2 = true := h.bound f hhead
      refine ⟨⟨fun g hg => h.first g ?_, fun g hg y hy => ?_, (hchain.mp h.follows).1⟩, ?_,
        (hchain.mp h.follows).2⟩
      · rw [hhead, ← hf]
        exact hg
      · rw [hf] at hg
        cases hg
        exact hbound y (List.mem_append_left _ hy)
      · rw [← receiptBoundEq_trans_iff (hbound l (List.mem_append_left _ hlmem))]
        exact hbound x (by simp)
    · rintro ⟨h, hb, hfol⟩
      refine ⟨fun g hg => h.first g ?_, fun g hg y hy => ?_, hchain.mpr ⟨h.follows, hfol⟩⟩
      · rw [hf, ← hhead]
        exact hg
      · rw [hhead] at hg
        cases hg
        rcases List.mem_append.mp hy with hy | hy
        · exact h.bound f hf y hy
        · rw [List.mem_singleton.mp hy, receiptBoundEq_trans_iff (h.bound f hf l hlmem)]
          exact hb

/-- What the automaton has seen. -/
def PhaseSpec (items : List Item) : Phase → Prop
  | .fresh => items = []
  | .opened checkpoint s r => Opened items checkpoint s r
  | .closed => ∃ xs checkpoint s r, items = xs ++ [.outcome] ∧ Opened xs checkpoint s r

/-- The receipt that the records of an open operation lead to. -/
def heldReceipt (items : List Item) : Option Receipt := (receiptsIn items).getLast?.map Prod.snd

/-- One more record after the opening one. -/
theorem next_opened_iff {rest : List Item} {x : Item} {ck : Bool} {s : StoredIntent}
    {r : Option Receipt} (hrest : ReceiptsOk (receiptsIn rest)) :
    (Phase.opened ck s (heldReceipt rest)).next x = some (.opened ck s r) ↔
      Belongs ck s x ∧ ReceiptsOk (receiptsIn (rest ++ [x])) ∧ heldReceipt (rest ++ [x]) = r := by
  rw [heldReceipt, heldReceipt, receiptsIn_concat]
  cases x with
  | opening ck' s' =>
    simp only [Phase.next, Belongs, List.append_nil, hrest, true_and]
    split
    · rename_i hcond
      simp [hcond]
    · rename_i hcond
      simp [hcond]
  | receipt ck' r' =>
    simp only [Belongs, receiptsOk_concat, hrest, true_and, List.getLast?_concat, Option.map_some]
    cases (receiptsIn rest).getLast?.map Prod.snd with
    | none =>
      simp only [Phase.next]
      split
      · rename_i hcond
        simp only [ReceiptFits] at hcond
        simp only [Option.some.injEq, Phase.opened.injEq, true_and]
        tauto
      · rename_i hcond
        simp only [ReceiptFits] at hcond
        simp only [reduceCtorEq, false_iff]
        tauto
    | some r₀ =>
      simp only [Phase.next]
      split
      · rename_i hcond
        simp only [ReceiptFits] at hcond
        simp only [Option.some.injEq, Phase.opened.injEq, true_and]
        tauto
      · rename_i hcond
        simp only [ReceiptFits] at hcond
        simp only [reduceCtorEq, false_iff]
        tauto
  | outcome => simp [Phase.next, Belongs]

/-- One more record of an open operation. -/
theorem opened_concat {items : List Item} {x : Item} {ck : Bool} {s : StoredIntent}
    {r : Option Receipt} :
    Opened (items ++ [x]) ck s r ↔
      (items = [] ∧ x = .opening ck s ∧ r = none) ∨
      ∃ r₀, Opened items ck s r₀ ∧ (Phase.opened ck s r₀).next x = some (.opened ck s r) := by
  constructor
  · rintro ⟨rest, heq, hbelongs, hrs, hr⟩
    rcases List.eq_nil_or_concat' rest with rfl | ⟨rest, y, rfl⟩
    · left
      obtain ⟨rfl, hx⟩ := List.append_eq_singleton_iff.mp heq |>.resolve_right (by simp)
      exact ⟨rfl, List.singleton_inj.mp hx, hr.symm⟩
    · right
      rw [← List.cons_append] at heq
      obtain ⟨rfl, hx⟩ := List.append_inj' heq rfl
      obtain rfl := List.singleton_inj.mp hx
      have hrest : ReceiptsOk (receiptsIn rest) := by
        rw [receiptsIn_concat] at hrs
        cases x with
        | opening ck' s' => simpa using hrs
        | receipt ck' r' => exact (receiptsOk_concat.mp hrs).1
        | outcome => simpa using hrs
      refine ⟨heldReceipt rest,
        ⟨rest, rfl, fun z hz => hbelongs z (List.mem_append_left _ hz), hrest, rfl⟩, ?_⟩
      exact (next_opened_iff hrest).mpr ⟨hbelongs x (by simp), hrs, hr⟩
  · rintro (⟨rfl, rfl, rfl⟩ | ⟨r₀, ⟨rest, rfl, hbelongs, hrest, rfl⟩, hnext⟩)
    · exact ⟨[], rfl, by simp, ⟨by simp [receiptsIn], by simp [receiptsIn], by simp [receiptsIn]⟩,
        rfl⟩
    · obtain ⟨hx, hrs, hr⟩ := (next_opened_iff hrest).mp hnext
      refine ⟨rest ++ [x], by simp, ?_, hrs, hr⟩
      intro z hz
      rcases List.mem_append.mp hz with hz | hz
      · exact hbelongs z hz
      · rw [List.mem_singleton.mp hz]
        exact hx

/-- An open operation stays itself or is closed. -/
theorem next_opened {ck : Bool} {s : StoredIntent} {r : Option Receipt} {x : Item} {p : Phase}
    (h : (Phase.opened ck s r).next x = some p) :
    (∃ r', p = .opened ck s r') ∨ x = .outcome ∧ p = .closed := by
  cases x with
  | opening ck' s' =>
    simp only [Phase.next] at h
    split at h
    · exact Or.inl ⟨r, (Option.some.inj h).symm⟩
    · cases h
  | receipt ck' r' =>
    cases r <;>
    · simp only [Phase.next] at h
      split at h
      · exact Or.inl ⟨_, (Option.some.inj h).symm⟩
      · cases h
  | outcome => exact Or.inr ⟨rfl, (Option.some.inj h).symm⟩

/-- The automaton accepts the records that the grammar allows, and is in the state they describe. -/
theorem phaseOf_eq_some_iff {items : List Item} {p : Phase} :
    phaseOf items = some p ↔ PhaseSpec items p := by
  induction items using List.reverseRecOn generalizing p with
  | nil =>
    cases p with
    | fresh => simp [phaseOf, PhaseSpec]
    | opened ck s r => simp [phaseOf, PhaseSpec, Opened]
    | closed => simp [phaseOf, PhaseSpec]
  | append_singleton items x ih =>
    rw [phaseOf_concat, Option.bind_eq_some_iff]
    simp only [ih]
    constructor
    · rintro ⟨q, hq, hnext⟩
      cases q with
      | fresh =>
        cases x with
        | opening ck s =>
          cases hnext
          exact opened_concat.mpr (Or.inl ⟨hq, rfl, rfl⟩)
        | receipt ck r => cases hnext
        | outcome => cases hnext
      | opened ck s r =>
        rcases next_opened hnext with ⟨r', rfl⟩ | ⟨rfl, rfl⟩
        · exact opened_concat.mpr (Or.inr ⟨r, hq, hnext⟩)
        · exact ⟨items, ck, s, r, rfl, hq⟩
      | closed => cases x <;> cases hnext
    · intro hp
      cases p with
      | fresh => simp [PhaseSpec] at hp
      | opened ck s r =>
        rcases opened_concat.mp hp with ⟨rfl, rfl, rfl⟩ | ⟨r₀, hr₀, hnext⟩
        · exact ⟨.fresh, rfl, rfl⟩
        · exact ⟨.opened ck s r₀, hr₀, hnext⟩
      | closed =>
        obtain ⟨xs, ck, s, r, heq, hopen⟩ := hp
        obtain ⟨rfl, hx⟩ := List.append_inj' heq rfl
        obtain rfl := List.singleton_inj.mp hx
        exact ⟨.opened ck s r, hopen, rfl⟩

/-- The records of an operation are consistent when the automaton accepts them. -/
theorem consistent_iff {items : List Item} : Consistent items ↔ ∃ p, phaseOf items = some p := by
  simp only [phaseOf_eq_some_iff]
  constructor
  · rintro (h | ⟨ck, s, r, h⟩ | h)
    · exact ⟨.fresh, h⟩
    · exact ⟨.opened ck s r, h⟩
    · exact ⟨.closed, h⟩
  · rintro ⟨p, hp⟩
    cases p with
    | fresh => exact Or.inl hp
    | opened ck s r => exact Or.inr (Or.inl ⟨ck, s, r, hp⟩)
    | closed => exact Or.inr (Or.inr hp)

/-! ## All automata at once -/

/-- The state of every operation after a log. -/
def phases (sts : List Stored) (cid : Buf cidMax) : Option Phase := phaseOf (itemsOf cid sts)

theorem phases_concat_of_none {st : Stored} (h : st.subject? = none) (sts : List Stored) :
    phases (sts ++ [st]) = phases sts := by
  funext cid
  simp [phases, itemsOf, h]

theorem phases_concat {st : Stored} {cid : Buf cidMax} {x : Item} (h : st.subject? = some (cid, x))
    (sts : List Stored) :
    phases (sts ++ [st]) =
      Function.update (phases sts) cid ((phases sts cid).bind (Phase.next · x)) := by
  funext c
  rcases eq_or_ne c cid with rfl | hne
  · rw [Function.update_self, phases, phases, ← phaseOf_concat]
    simp [itemsOf, h]
  · rw [Function.update_of_ne hne, phases, phases]
    simp [itemsOf, h, Ne.symm hne]

/-- An intent is what the automaton of its operation says. -/
def Phase.Holds (p : Phase) (it : Intent) : Prop :=
  ∃ s, p = .opened it.fromCheckpoint s it.receipt ∧ it.binding = s.binding ∧ it.actor = s.actor ∧
    it.operation = s.operation ∧ it.resource = s.resource ∧ it.scope = s.scope

/-- The tables of a replay and the states of the automata. -/
structure Mirrors (R : Replay) (P : Buf cidMax → Option Phase) : Prop where
  wf : R.tables.opens.Wf
  /-- No automaton has refused a record. -/
  legal : ∀ cid, ∃ p, P cid = some p
  nodes : ∀ a, R.tables.opens.Open a →
    ∃ p, P (R.tables.opens.heap a).cid = some p ∧ p.Holds (R.tables.opens.heap a)
  complete : ∀ cid ck s r, P cid = some (.opened ck s r) →
    ∃ a, R.tables.opens.Open a ∧ (R.tables.opens.heap a).cid = cid
  closed : ∀ cid, R.closed.has cid = true ↔ P cid = some .closed

/-- A receipt that would be the first of its operation has a verifier that is not in use. -/
def VerifierFresh (P : Buf cidMax → Option Phase) (cid : Buf cidMax) : Item → Prop
  | .receipt _ r => (∃ ck s, P cid = some (.opened ck s none)) →
      ∀ cid' ck s r', P cid' = some (.opened ck s (some r')) → r'.verifier ≠ r.verifier
  | _ => True

section Mirrors

variable {R R' : Replay} {P : Buf cidMax → Option Phase} {cid : Buf cidMax} {ck : Bool}
  {s : StoredIntent} {r : Option Receipt}

theorem mirrors_init (cfg : Config) (total : ℕ) : Mirrors (Replay.init cfg total) (phases []) where
  wf := (Tables.ok_init cfg).opens
  legal _ := ⟨.fresh, rfl⟩
  nodes a ha := by simp [OpenSet.Open, Replay.init, Tables.init, OpenSet.init] at ha
  complete cid ck s r h := by cases h
  closed cid := by simp [Replay.init, CidSet.has_init, phases, phaseOf, itemsOf]

/-- The node of an operation that is open. -/
theorem Mirrors.find (h : Mirrors R P) (hP : P cid = some (.opened ck s r)) :
    ∃ a, R.tables.opens.openFindCid cid.bytes = some a ∧ R.tables.opens.Open a ∧
      (R.tables.opens.heap a).cid = cid ∧ (R.tables.opens.heap a).fromCheckpoint = ck ∧
      (R.tables.opens.heap a).toOpenIntent =
        ⟨s.binding, s.actor, s.operation, s.resource, s.scope, r⟩ := by
  obtain ⟨a, hopen, hcid⟩ := h.complete cid ck s r hP
  obtain ⟨p, hp, s', rfl, hb, ha, ho, hr, hs⟩ := h.nodes a hopen
  rw [hcid, hP] at hp
  obtain ⟨rfl, rfl, rfl⟩ := Phase.opened.inj (Option.some.inj hp)
  refine ⟨a, h.wf.openFindCid_eq_some_iff.mpr ⟨hopen, hcid⟩, hopen, hcid, rfl, ?_⟩
  rw [← hb, ← ha, ← ho, ← hr, ← hs]

/-- An operation that is not open has no node. -/
theorem Mirrors.find_none (h : Mirrors R P) (hP : ∀ ck s r, P cid ≠ some (.opened ck s r)) :
    R.tables.opens.openFindCid cid.bytes = none := by
  rw [Option.eq_none_iff_forall_ne_some]
  intro a ha
  obtain ⟨hopen, hcid⟩ := h.wf.openFindCid_eq_some_iff.mp ha
  obtain ⟨p, hp, s, rfl, -⟩ := h.nodes a hopen
  rw [hcid] at hp
  exact hP _ _ _ hp

/-- One automaton moves: the nodes of the other operations stay, and that of its own operation is
what it says. -/
theorem Mirrors.update (h : Mirrors R P) {p : Phase} (hwf : R'.tables.opens.Wf)
    (hsame : ∀ a, R.tables.opens.Open a → (R.tables.opens.heap a).cid ≠ cid →
      R'.tables.opens.Open a ∧ R'.tables.opens.heap a = R.tables.opens.heap a)
    (hback : ∀ a, R'.tables.opens.Open a →
      (R.tables.opens.Open a ∧ (R.tables.opens.heap a).cid ≠ cid ∧
        R'.tables.opens.heap a = R.tables.opens.heap a) ∨
      ((R'.tables.opens.heap a).cid = cid ∧ p.Holds (R'.tables.opens.heap a)))
    (hopen : ∀ ck s r, p = .opened ck s r →
      ∃ a, R'.tables.opens.Open a ∧ (R'.tables.opens.heap a).cid = cid)
    (hclosed : ∀ c, R'.closed.has c = true ↔ Function.update P cid (some p) c = some .closed) :
    Mirrors R' (Function.update P cid (some p)) := by
  refine ⟨hwf, ?_, ?_, ?_, hclosed⟩
  · intro c
    rcases eq_or_ne c cid with rfl | hne
    · exact ⟨p, Function.update_self ..⟩
    · rw [Function.update_of_ne hne]
      exact h.legal c
  · intro a ha
    rcases hback a ha with ⟨ha, hne, heq⟩ | ⟨hcid, hholds⟩
    · rw [heq, Function.update_of_ne hne]
      exact h.nodes a ha
    · exact ⟨p, by rw [hcid, Function.update_self], hholds⟩
  · intro c ck s r hc
    rcases eq_or_ne c cid with rfl | hne
    · rw [Function.update_self] at hc
      exact hopen ck s r (Option.some.inj hc)
    · rw [Function.update_of_ne hne] at hc
      obtain ⟨a, ha, hcid⟩ := h.complete c ck s r hc
      obtain ⟨ha', heq⟩ := hsame a ha (by rw [hcid]; exact hne)
      exact ⟨a, ha', by rw [heq, hcid]⟩

/-- The closed ids when an automaton moves to a state that is not the closed one. -/
theorem Mirrors.closed_update (h : Mirrors R P) {p p' : Phase} (hP : P cid = some p)
    (hp : p ≠ .closed) (hp' : p' ≠ .closed) (c : Buf cidMax) :
    R.closed.has c = true ↔ Function.update P cid (some p') c = some .closed := by
  rw [h.closed]
  rcases eq_or_ne c cid with rfl | hne
  · rw [Function.update_self, hP]
    simp [hp, hp']
  · rw [Function.update_of_ne hne]

/-- An operation is opened. -/
theorem Mirrors.applyOpening (h : Mirrors R P) (hP : P s.cid = some .fresh)
    (hb : s.binding.bytes ≠ []) :
    ∃ R', applyOpening R s ck = .ok R' ∧
      Mirrors R' (Function.update P s.cid (some (.opened ck s none))) := by
  have hnone : R.tables.opens.openFindCid s.cid.bytes = none := h.find_none (by simp [hP])
  have hview : R.tables.opens.view s.cid = none := by rw [OpenSet.view, hnone]; rfl
  have hhas : R.closed.has s.cid = false := by
    rw [← Bool.not_eq_true, h.closed, hP]
    simp
  have hother : ∀ a, R.tables.opens.Open a → (R.tables.opens.heap a).cid ≠ s.cid :=
    h.wf.view_eq_none_iff.mp hview
  set o := R.tables.opens.openAdd s.cid s.binding s.actor s.operation s.resource s.scope with ho
  have hwf : o.Wf := h.wf.openAdd hview
  have hopen : ∀ a, o.Open a ↔ a = R.tables.opens.next ∨ R.tables.opens.Open a :=
    fun a => OpenSet.open_openAdd
  -- The new node, up to the flag that a checkpoint sets.
  have hmirror : ∀ R' : Replay, R'.tables.opens.Wf → R'.closed = R.closed →
      (∀ a, R'.tables.opens.Open a ↔ o.Open a) →
      R'.tables.opens.heap = Function.update o.heap R.tables.opens.next
        { o.heap R.tables.opens.next with fromCheckpoint := ck } →
      Mirrors R' (Function.update P s.cid (some (.opened ck s none))) := by
    intro R' hwf' hclosed hopen' hheap
    have hnode : (R'.tables.opens.heap R.tables.opens.next) =
        { binding := s.binding, actor := s.actor, operation := s.operation, resource := s.resource,
          scope := s.scope, receipt := none, cid := s.cid, fromCheckpoint := ck } := by
      rw [hheap, Function.update_self, ho, OpenSet.heap_openAdd_next]
    have hheap' : ∀ a, R.tables.opens.Open a →
        R'.tables.opens.heap a = R.tables.opens.heap a := by
      intro a ha
      have hne := h.wf.ne_next ha
      rw [hheap, Function.update_of_ne hne, ho, OpenSet.heap_openAdd_of_ne hne]
    refine h.update hwf' ?_ ?_ ?_ ?_
    · intro a ha _
      exact ⟨(hopen' a).mpr ((hopen a).mpr (Or.inr ha)), hheap' a ha⟩
    · intro a ha
      rcases (hopen a).mp ((hopen' a).mp ha) with rfl | ha
      · rw [hnode]
        exact Or.inr ⟨rfl, s, rfl, rfl, rfl, rfl, rfl, rfl⟩
      · exact Or.inl ⟨ha, hother a ha, hheap' a ha⟩
    · intro _ _ _ _
      exact ⟨_, (hopen' _).mpr ((hopen _).mpr (Or.inl rfl)), by rw [hnode]⟩
    · rw [hclosed]
      exact h.closed_update hP (by simp) (by simp)
  have hnext : o.openFindCid s.cid.bytes = some R.tables.opens.next :=
    hwf.openFindCid_eq_some_iff.mpr
      ⟨(hopen _).mpr (Or.inl rfl), by rw [ho, OpenSet.heap_openAdd_next]⟩
  have hopens : (R.tables.openAdd s.cid s.binding s.actor s.operation s.resource s.scope).opens =
      o := rfl
  unfold AuditBroker.applyOpening
  simp only [hb, if_false, hnone, hhas, Bool.false_eq_true, hopens, hnext]
  cases ck with
  | false =>
    have hflag : { o.heap R.tables.opens.next with fromCheckpoint := false } =
        o.heap R.tables.opens.next := by
      rw [ho, OpenSet.heap_openAdd_next]
    refine ⟨_, rfl, hmirror _ hwf rfl (fun _ => Iff.rfl) ?_⟩
    rw [hflag, Function.update_eq_self]
    rfl
  | true =>
    obtain ⟨hwf', -, hopen'⟩ := hwf.markCheckpoint ((hopen _).mpr (Or.inl rfl))
    exact ⟨_, rfl, hmirror _ hwf' rfl hopen' rfl⟩

/-- A record is applied when its automaton accepts it and its verifier is not in use, and refused
otherwise. -/
def Decides (P : Buf cidMax → Option Phase) (cid : Buf cidMax) (x : Item)
    (res : Except String Replay) : Prop :=
  (∃ R' p, res = .ok R' ∧ (P cid).bind (Phase.next · x) = some p ∧ VerifierFresh P cid x ∧
    Mirrors R' (Function.update P cid (some p))) ∨
  (∃ e, res = .error e) ∧ ((P cid).bind (Phase.next · x) = none ∨ ¬VerifierFresh P cid x)

theorem Mirrors.decides_opening (h : Mirrors R P) (hb : s.binding.bytes ≠ []) :
    Decides P s.cid (.opening ck s) (AuditBroker.applyOpening R s ck) := by
  obtain ⟨p, hP⟩ := h.legal s.cid
  cases p with
  | fresh =>
    obtain ⟨R', hres, hmirror⟩ : ∃ R', AuditBroker.applyOpening R s ck = .ok R' ∧
        Mirrors R' (Function.update P s.cid (some (.opened ck s none))) := h.applyOpening hP hb
    exact Or.inl ⟨R', _, hres, by rw [hP]; rfl, trivial, hmirror⟩
  | closed =>
    have hnone : R.tables.opens.openFindCid s.cid.bytes = none := h.find_none (by simp [hP])
    have hhas : R.closed.has s.cid = true := (h.closed s.cid).mpr hP
    refine Or.inr ⟨?_, Or.inl (by rw [hP]; rfl)⟩
    unfold AuditBroker.applyOpening
    simp only [hb, if_false, hnone, hhas, if_true]
    exact ⟨_, rfl⟩
  | opened ck₀ s₀ r₀ =>
    obtain ⟨a, hfind, -, -, -, hoi⟩ := h.find hP
    have hbind : (R.tables.opens.heap a).binding = s₀.binding := congrArg OpenIntent.binding hoi
    have hactor : (R.tables.opens.heap a).actor = s₀.actor := congrArg OpenIntent.actor hoi
    have hnext : (P s.cid).bind (Phase.next · (.opening ck s)) =
        if ck = true ∧ s.binding = s₀.binding ∧ s.actor = s₀.actor then
          some (.opened ck₀ s₀ r₀) else none := by
      rw [hP]
      rfl
    unfold AuditBroker.applyOpening
    simp only [hb, if_false, hfind, hbind, hactor]
    by_cases hcond : ck = true ∧ s.binding = s₀.binding ∧ s.actor = s₀.actor
    · rw [if_pos hcond] at hnext
      obtain ⟨rfl, hb', ha'⟩ := hcond
      refine Or.inl ⟨R, _, ?_, hnext, trivial, ?_⟩
      · rw [if_neg (by simp), if_neg (by simp [hb', ha', rabActorEq_iff])]
      · rw [← hP, Function.update_eq_self]
        exact h
    · rw [if_neg hcond] at hnext
      refine Or.inr ⟨?_, Or.inl hnext⟩
      cases ck with
      | false => exact ⟨_, if_pos rfl⟩
      | true =>
        refine ⟨_, (if_neg (by simp)).trans (if_pos ?_)⟩
        rw [← Bool.not_eq_true, rabActorEq_iff]
        by_contra hno
        push Not at hno
        exact hcond ⟨rfl, hno.1.symm, hno.2.symm⟩

theorem Mirrors.decides_outcome (h : Mirrors R P) (hs : s.cid = cid) :
    Decides P cid .outcome (applyStored R (.audit s phaseOutcome)) := by
  subst hs
  have hphase : phaseOutcome ≠ phaseIntent := by decide
  obtain ⟨p, hP⟩ := h.legal s.cid
  unfold applyStored
  simp only [hphase, if_false, if_true]
  cases p with
  | fresh =>
    rw [h.find_none (by simp [hP])]
    exact Or.inr ⟨⟨_, rfl⟩, Or.inl (by rw [hP]; rfl)⟩
  | closed =>
    rw [h.find_none (by simp [hP])]
    exact Or.inr ⟨⟨_, rfl⟩, Or.inl (by rw [hP]; rfl)⟩
  | opened ck₀ s₀ r₀ =>
    obtain ⟨a, hfind, hopen, hcid, -, -⟩ := h.find hP
    rw [hfind]
    refine Or.inl ⟨_, .closed, rfl, by rw [hP]; rfl, trivial, ?_⟩
    have hopen' : ∀ b, (R.tables.openRemove a).opens.Open b ↔ b ≠ a ∧ R.tables.opens.Open b :=
      fun b => h.wf.open_openRemove
    have hheap : (R.tables.openRemove a).opens.heap = R.tables.opens.heap :=
      OpenSet.heap_openRemove _ _
    refine h.update (h.wf.openRemove a) ?_ ?_ (by simp) ?_
    · intro b hb hne
      refine ⟨(hopen' b).mpr ⟨?_, hb⟩, by rw [hheap]⟩
      rintro rfl
      exact hne hcid
    · intro b hb
      obtain ⟨hne, hb⟩ := (hopen' b).mp hb
      refine Or.inl ⟨hb, fun heq => hne (h.wf.cid_inj b a hb hopen (heq.trans hcid.symm)), ?_⟩
      rw [hheap]
    · intro c
      rw [CidSet.has_add]
      rcases eq_or_ne c s.cid with rfl | hne
      · simp
      · rw [Function.update_of_ne hne, ← h.closed]
        simp [hne]

/-- The node of an operation gets a new receipt. -/
theorem Mirrors.set_receipt (h : Mirrors R P) {a : ℕ} {o : OpenSet} {r' : Receipt}
    (hP : P cid = some (.opened ck s r)) (hopen : R.tables.opens.Open a)
    (hcid : (R.tables.opens.heap a).cid = cid) (hwf : o.Wf)
    (hopen' : ∀ b, o.Open b ↔ R.tables.opens.Open b)
    (hheap : o.heap = (R.tables.opens.setReceipt a r').heap) :
    Mirrors { R with tables := { R.tables with opens := o } }
      (Function.update P cid (some (.opened ck s (some r')))) := by
  obtain ⟨a', hfind, -, -, hck, hoi⟩ := h.find hP
  obtain rfl : a = a' := by
    have := h.wf.openFindCid_eq_some_iff.mpr ⟨hopen, hcid⟩
    rw [hfind] at this
    exact (Option.some.inj this).symm
  have hself : o.heap a = { R.tables.opens.heap a with receipt := some r' } := by
    rw [hheap, OpenSet.heap_setReceipt_self]
  have hne : ∀ b, b ≠ a → o.heap b = R.tables.opens.heap b := by
    intro b hb
    rw [hheap, OpenSet.heap_setReceipt_of_ne hb]
  refine h.update hwf ?_ ?_ ?_ (h.closed_update hP (by simp) (by simp))
  · intro b hb hbcid
    exact ⟨(hopen' b).mpr hb, hne b fun heq => hbcid (heq ▸ hcid)⟩
  · intro b hb
    have hb := (hopen' b).mp hb
    rcases eq_or_ne b a with rfl | hba
    · refine Or.inr ⟨?_, s, ?_, ?_⟩
      · simp only [hself, hcid]
      · simp only [hself, hck]
      · simp only [hself]
        exact ⟨congrArg OpenIntent.binding hoi, congrArg OpenIntent.actor hoi,
          congrArg OpenIntent.operation hoi, congrArg OpenIntent.resource hoi,
          congrArg OpenIntent.scope hoi⟩
    · exact Or.inl ⟨hb, fun heq => hba (h.wf.cid_inj b a hb hopen (heq.trans hcid.symm)),
        hne b hba⟩
  · intro _ _ _ _
    exact ⟨a, (hopen' a).mpr hopen, by simp only [hself, hcid]⟩

/-- The verifiers in use, in the table and in the automata. -/
theorem Mirrors.openFindVerifier_eq_none_iff (h : Mirrors R P) {v : Buf hex64Max}
    (hv : v.bytes ≠ []) :
    R.tables.opens.openFindVerifier v.bytes = none ↔
      ∀ cid ck s r, P cid = some (.opened ck s (some r)) → r.verifier ≠ v := by
  rw [h.wf.openFindVerifier_eq_none_iff hv]
  constructor
  · intro hall cid ck s r hP heq
    obtain ⟨a, -, hopen, hcid, -, hoi⟩ := h.find hP
    refine hall cid _ r (h.wf.view_eq_some_iff.mpr ⟨a, hopen, hcid, rfl⟩) ?_ (by rw [heq])
    rw [hoi]
  · intro hall cid oi r hview hr heq
    obtain ⟨a, hopen, hcid, rfl⟩ := h.wf.view_eq_some_iff.mp hview
    obtain ⟨p, hP, s, rfl, -⟩ := h.nodes a hopen
    exact hall _ _ s r (by rw [hP]; exact congrArg (fun o => some (Phase.opened _ s o)) hr)
      (Buf.ext heq)

/-- A receipt that fits an intent without one. -/
theorem Mirrors.decides_first (h : Mirrors R P) {a : ℕ} {ck' : Bool} {r' : Receipt}
    (hv : r'.verifier.bytes ≠ []) (hP : P cid = some (.opened ck s none))
    (hopen : R.tables.opens.Open a) (hcid : (R.tables.opens.heap a).cid = cid)
    (hrcpt : (R.tables.opens.heap a).receipt = none) (hfits : ReceiptFits ck s ck' r') :
    Decides P cid (.receipt ck' r')
      (Except.map (fun t => { R with tables := t })
        (if ck' = false ∧ r'.state = .redeemed then
          .error "redeemed receipt transition without a prior issued"
        else if (R.tables.opens.openFindVerifier r'.verifier.bytes).isSome then
          .error "receipt verifier collides with another intent"
        else .ok (R.tables.installReceipt a r'))) := by
  have hnext : (P cid).bind (Phase.next · (.receipt ck' r')) =
      if ReceiptFits ck s ck' r' ∧ ¬(ck' = false ∧ r'.state = .redeemed) then
        some (.opened ck s (some r')) else none := by
    rw [hP]
    rfl
  by_cases hred : ck' = false ∧ r'.state = .redeemed
  · rw [if_pos hred]
    exact Or.inr ⟨⟨_, rfl⟩, Or.inl (by rw [hnext, if_neg (by tauto)])⟩
  rw [if_neg hred]
  rw [if_pos ⟨hfits, hred⟩] at hnext
  have hiff := h.openFindVerifier_eq_none_iff hv
  by_cases hfind : R.tables.opens.openFindVerifier r'.verifier.bytes = none
  · rw [hfind]
    refine Or.inl ⟨_, _, rfl, hnext, fun _ => hiff.mp hfind, ?_⟩
    exact h.set_receipt hP hopen hcid (h.wf.installReceipt hopen hrcpt)
      (fun b => OpenSet.open_installReceipt) OpenSet.heap_installReceipt
  · rw [if_pos (Option.isSome_iff_ne_none.mpr hfind)]
    exact Or.inr ⟨⟨_, rfl⟩, Or.inr fun hfresh => hfind (hiff.mpr (hfresh ⟨ck, s, hP⟩))⟩

/-- A receipt that fits an intent with one. -/
theorem Mirrors.decides_later (h : Mirrors R P) {a : ℕ} {ck' : Bool} {r₀ r' : Receipt}
    (hP : P cid = some (.opened ck s (some r₀))) (hopen : R.tables.opens.Open a)
    (hcid : (R.tables.opens.heap a).cid = cid)
    (hrcpt : (R.tables.opens.heap a).receipt = some r₀) (hfits : ReceiptFits ck s ck' r') :
    Decides P cid (.receipt ck' r')
      (Except.map (fun t => { R with tables := t })
        (if receiptBoundEq r₀ r' = false then .error "conflicting duplicate receipt"
        else if r'.state = r₀.state then
          if r'.acceptedTimeUs ≠ r₀.acceptedTimeUs then .error "conflicting duplicate receipt"
          else .ok R.tables
        else if r₀.state = .issued ∧ r'.state = .redeemed then
          .ok (R.tables.setReceipt a
            { r₀ with state := .redeemed, acceptedTimeUs := r'.acceptedTimeUs })
        else .error "inconsistent receipt state transition")) := by
  have hnext : (P cid).bind (Phase.next · (.receipt ck' r')) =
      if ReceiptFits ck s ck' r' ∧ receiptBoundEq r₀ r' = true ∧ Follows r₀ r' then
        some (.opened ck s (some r')) else none := by
    rw [hP]
    rfl
  have hfresh : VerifierFresh P cid (.receipt ck' r') := by
    rintro ⟨ck₁, s₁, hP₁⟩
    rw [hP] at hP₁
    simp at hP₁
  have hrefuse : ∀ e, ¬(receiptBoundEq r₀ r' = true ∧ Follows r₀ r') →
      Decides P cid (.receipt ck' r')
        (Except.map (fun t => { R with tables := t }) (.error e)) := fun e hno =>
    Or.inr ⟨⟨e, rfl⟩, Or.inl (by rw [hnext, if_neg fun hcond => hno hcond.2])⟩
  by_cases hbound : receiptBoundEq r₀ r' = true
  swap
  · rw [if_pos (by simpa using hbound)]
    exact hrefuse _ fun hcond => hbound hcond.1
  rw [if_neg (by simp [hbound])]
  have heq := receiptBoundEq_iff.mp hbound
  by_cases hstate : r'.state = r₀.state
  · rw [if_pos hstate]
    by_cases htime : r'.acceptedTimeUs = r₀.acceptedTimeUs
    · -- The record repeats the receipt that is held.
      rw [if_neg (by simp [htime])]
      obtain rfl : r₀ = r' := by
        rw [hstate, htime] at heq
        exact heq
      refine Or.inl ⟨R, _, rfl, by rw [hnext, if_pos ⟨hfits, hbound, Or.inl ⟨rfl, rfl⟩⟩], hfresh, ?_⟩
      rw [← hP, Function.update_eq_self]
      exact h
    · rw [if_pos htime]
      refine hrefuse _ fun hcond => ?_
      rcases hcond.2 with ⟨-, ht⟩ | ⟨hi, hr⟩
      · exact htime ht
      · rw [hi, hr] at hstate
        cases hstate
  rw [if_neg hstate]
  by_cases hredeem : r₀.state = .issued ∧ r'.state = .redeemed
  · rw [if_pos hredeem]
    rw [hredeem.2] at heq
    rw [heq]
    have hver : r'.verifier = r₀.verifier := by rw [← heq]
    refine Or.inl ⟨_, _, rfl, by rw [hnext, if_pos ⟨hfits, hbound, Or.inr hredeem⟩], hfresh, ?_⟩
    exact h.set_receipt hP hopen hcid (h.wf.setReceipt hrcpt hver)
      (fun b => OpenSet.open_setReceipt) rfl
  · rw [if_neg hredeem]
    refine hrefuse _ fun hcond => ?_
    rcases hcond.2 with ⟨hs, -⟩ | hr
    · exact hstate hs
    · exact hredeem hr

theorem Mirrors.decides_receipt (h : Mirrors R P) {ck' : Bool} {r' : Receipt}
    (hv : r'.verifier.bytes ≠ []) :
    Decides P cid (.receipt ck' r') (applyStored R (.receipt cid ck' r')) := by
  obtain ⟨p, hP⟩ := h.legal cid
  unfold applyStored
  simp only
  cases p with
  | fresh =>
    rw [h.find_none (by simp [hP])]
    exact Or.inr ⟨⟨_, rfl⟩, Or.inl (by rw [hP]; rfl)⟩
  | closed =>
    rw [h.find_none (by simp [hP])]
    exact Or.inr ⟨⟨_, rfl⟩, Or.inl (by rw [hP]; rfl)⟩
  | opened ck s r =>
    obtain ⟨a, hfind, hopen, hcid, hck, hoi⟩ := h.find hP
    have hactor : (R.tables.opens.heap a).actor = s.actor := congrArg OpenIntent.actor hoi
    have hop : (R.tables.opens.heap a).operation = s.operation := congrArg OpenIntent.operation hoi
    have hres : (R.tables.opens.heap a).resource = s.resource := congrArg OpenIntent.resource hoi
    have hrcpt : (R.tables.opens.heap a).receipt = r := congrArg OpenIntent.receipt hoi
    rw [hfind]
    simp only [applyReceipt, hactor, hop, hres, hck, hrcpt]
    by_cases hfits : ReceiptFits ck s ck' r'
    · have h₁ : ¬(r'.actorUid ≠ s.actor.uid ∨ r'.verb ≠ s.operation ∨ r'.resource ≠ s.resource) := by
        simp [hfits.1, hfits.2.1, hfits.2.2.1]
      have h₂ : ¬(ck' = true ∧ ck = false) := by
        rintro ⟨htrue, hfalse⟩
        simp [hfits.2.2.2 htrue] at hfalse
      rw [if_neg h₁, if_neg h₂]
      cases r with
      | none => exact h.decides_first hv hP hopen hcid hrcpt hfits
      | some r₀ => exact h.decides_later hP hopen hcid hrcpt hfits
    · have hnext : (P cid).bind (Phase.next · (.receipt ck' r')) = none := by
        rw [hP]
        cases r with
        | none => exact if_neg fun hcond => hfits hcond.1
        | some r₀ => exact if_neg fun hcond => hfits hcond.1
      refine Or.inr ⟨?_, Or.inl hnext⟩
      by_cases h₁ : r'.actorUid ≠ s.actor.uid ∨ r'.verb ≠ s.operation ∨ r'.resource ≠ s.resource
      · rw [if_pos h₁]
        exact ⟨_, rfl⟩
      · have h₂ : ck' = true ∧ ck = false := by
          simp only [ReceiptFits] at hfits
          cases ck <;> simp_all
        rw [if_neg h₁, if_pos h₂]
        exact ⟨_, rfl⟩

/-- A record is about no operation and changes nothing, or the automaton of its operation decides. -/
theorem Mirrors.decides (h : Mirrors R P) {st : Stored} (hok : st.Ok) :
    (st.subject? = none ∧ applyStored R st = .ok R) ∨
      ∃ cid x, st.subject? = some (cid, x) ∧ Decides P cid x (applyStored R st) := by
  cases st with
  | audit s phase =>
    by_cases hi : phase = phaseIntent
    · refine Or.inr ⟨s.cid, .opening false s, if_pos hi, ?_⟩
      have happly : applyStored R (.audit s phase) = AuditBroker.applyOpening R s false := if_pos hi
      rw [happly]
      exact h.decides_opening (hok hi)
    by_cases ho : phase = phaseOutcome
    · refine Or.inr ⟨s.cid, .outcome, (if_neg hi).trans (if_pos ho), ?_⟩
      rw [ho]
      exact h.decides_outcome rfl
    · exact Or.inl ⟨(if_neg hi).trans (if_neg ho), (if_neg hi).trans (if_neg ho)⟩
  | checkpoint s => exact Or.inr ⟨s.cid, .opening true s, rfl, h.decides_opening hok⟩
  | receipt cid ck' r' => exact Or.inr ⟨cid, .receipt ck' r', rfl, h.decides_receipt hok⟩
  | rate uid entries => exact Or.inl ⟨rfl, rfl⟩

/-- The open set is that of the automata. -/
theorem Mirrors.view_eq_some_iff (h : Mirrors R P) {oi : OpenIntent} :
    R.tables.opens.view cid = some oi ↔ ∃ ck s r, P cid = some (.opened ck s r) ∧
      oi = ⟨s.binding, s.actor, s.operation, s.resource, s.scope, r⟩ := by
  constructor
  · intro hview
    obtain ⟨a, hopen, hcid, rfl⟩ := h.wf.view_eq_some_iff.mp hview
    obtain ⟨p, hP, s, rfl, hb, ha, ho, hr, hs⟩ := h.nodes a hopen
    rw [hcid] at hP
    refine ⟨_, s, _, hP, ?_⟩
    rw [← hb, ← ha, ← ho, ← hr, ← hs]
  · rintro ⟨ck, s, r, hP, rfl⟩
    obtain ⟨a, -, hopen, hcid, -, hoi⟩ := h.find hP
    exact h.wf.view_eq_some_iff.mpr ⟨a, hopen, hcid, hoi⟩

end Mirrors

/-! ## Whole logs -/

section Logs

variable {sts : List Stored} {st : Stored} {cid : Buf cidMax} {x : Item}

theorem receiptsIn_eq_nil_iff {items : List Item} {ck : Bool} {s : StoredIntent}
    {r : Option Receipt} (h : Opened items ck s r) : receiptsIn items = [] ↔ r = none := by
  obtain ⟨rest, rfl, -, -, rfl⟩ := h
  have hcons : receiptsIn (.opening ck s :: rest) = receiptsIn rest := rfl
  rw [hcons, Option.map_eq_none_iff, List.getLast?_eq_none_iff]

/-- The condition on the verifier of a receipt record that the automaton accepts. -/
theorem verifierFresh_iff {ck' : Bool} {r' : Receipt} {p : Phase}
    (hnext : (phases sts cid).bind (Phase.next · (.receipt ck' r')) = some p) :
    VerifierFresh (phases sts) cid (.receipt ck' r') ↔
      (receiptsIn (itemsOf cid sts) = [] →
        ∀ cid', cid' ≠ cid → ¬HoldsVerifier (itemsOf cid' sts) r'.verifier) := by
  obtain ⟨q, hq, hnext⟩ := Option.bind_eq_some_iff.mp hnext
  cases q with
  | fresh => cases hnext
  | closed => cases hnext
  | opened ck s r =>
    have hnil := receiptsIn_eq_nil_iff (phaseOf_eq_some_iff.mp hq)
    constructor
    · rintro hfresh hrs cid' - ⟨ck₁, s₁, r₁, hopened, hver⟩
      rw [hnil.mp hrs] at hq
      exact hfresh ⟨ck, s, hq⟩ cid' ck₁ s₁ r₁ (phaseOf_eq_some_iff.mpr hopened) hver
    · rintro hall ⟨ck₀, s₀, hq₀⟩ cid' ck₁ s₁ r₁ hP hver
      rw [hq] at hq₀
      obtain ⟨-, -, rfl⟩ := Phase.opened.inj (Option.some.inj hq₀)
      refine hall (hnil.mpr rfl) cid' ?_ ⟨ck₁, s₁, r₁, phaseOf_eq_some_iff.mp hP, hver⟩
      rintro rfl
      rw [hq] at hP
      cases hP

/-- The condition on the verifiers, one record further. -/
theorem verifiersFresh_concat :
    VerifiersFresh (sts ++ [st]) ↔ VerifiersFresh sts ∧
      ∀ cid ck r, st = .receipt cid ck r → receiptsIn (itemsOf cid sts) = [] →
        ∀ cid', cid' ≠ cid → ¬HoldsVerifier (itemsOf cid' sts) r.verifier := by
  constructor
  · intro h
    refine ⟨?_, ?_⟩
    · rintro pre cid ck r post rfl
      exact h pre cid ck r (post ++ [st]) (by simp)
    · rintro cid ck r rfl
      exact h sts cid ck r [] rfl
  · rintro ⟨h, hlast⟩ pre cid ck r post heq
    rcases List.eq_nil_or_concat' post with rfl | ⟨post, y, rfl⟩
    · obtain ⟨rfl, hst⟩ := List.append_inj' heq rfl
      exact hlast cid ck r (List.singleton_inj.mp hst)
    · rw [← List.cons_append, ← List.append_assoc] at heq
      obtain ⟨rfl, -⟩ := List.append_inj' heq rfl
      exact h pre cid ck r post rfl

/-- The logs that are consistent: operation by operation, and in their verifiers. -/
def LogOk (sts : List Stored) : Prop :=
  (∀ cid, Consistent (itemsOf cid sts)) ∧ VerifiersFresh sts

/-- A record about no operation does not matter. -/
theorem logOk_concat_of_none (h : st.subject? = none) : LogOk (sts ++ [st]) ↔ LogOk sts := by
  have hrec : ∀ cid ck r, st ≠ .receipt cid ck r := by
    rintro cid ck r rfl
    cases h
  have hitems : ∀ cid, itemsOf cid (sts ++ [st]) = itemsOf cid sts := by
    intro cid
    simp [itemsOf, h]
  simp only [LogOk, hitems, verifiersFresh_concat]
  constructor
  · rintro ⟨hc, hv, -⟩
    exact ⟨hc, hv⟩
  · rintro ⟨hc, hv⟩
    exact ⟨hc, hv, fun cid ck r heq => absurd heq (hrec cid ck r)⟩

/-- A record about an operation: its automaton accepts it, and its verifier is not in use. -/
theorem logOk_concat (h : st.subject? = some (cid, x)) :
    LogOk (sts ++ [st]) ↔ LogOk sts ∧
      (∃ p, (phases sts cid).bind (Phase.next · x) = some p) ∧ VerifierFresh (phases sts) cid x := by
  have hphases := phases_concat h sts
  have hcons : (∀ c, Consistent (itemsOf c (sts ++ [st]))) ↔ (∀ c, Consistent (itemsOf c sts)) ∧
      ∃ p, (phases sts cid).bind (Phase.next · x) = some p := by
    have hc : ∀ c, Consistent (itemsOf c (sts ++ [st])) ↔
        ∃ p, Function.update (phases sts) cid ((phases sts cid).bind (Phase.next · x)) c = some p := by
      intro c
      rw [consistent_iff, ← hphases, phases]
    simp only [hc]
    constructor
    · intro hall
      obtain ⟨p, hp⟩ := hall cid
      rw [Function.update_self] at hp
      refine ⟨fun c => consistent_iff.mpr ?_, p, hp⟩
      rcases eq_or_ne c cid with rfl | hne
      · obtain ⟨q, hq, -⟩ := Option.bind_eq_some_iff.mp hp
        exact ⟨q, hq⟩
      · obtain ⟨q, hq⟩ := hall c
        rw [Function.update_of_ne hne] at hq
        exact ⟨q, hq⟩
    · rintro ⟨hall, p, hp⟩ c
      rcases eq_or_ne c cid with rfl | hne
      · exact ⟨p, by rw [Function.update_self, hp]⟩
      · rw [Function.update_of_ne hne]
        exact consistent_iff.mp (hall c)
  -- For a receipt both conditions on the verifier agree once the automaton accepts it.
  have hfresh : (∃ p, (phases sts cid).bind (Phase.next · x) = some p) →
      (VerifierFresh (phases sts) cid x ↔ ∀ cid ck r, st = .receipt cid ck r →
        receiptsIn (itemsOf cid sts) = [] →
          ∀ cid', cid' ≠ cid → ¬HoldsVerifier (itemsOf cid' sts) r.verifier) := by
    rintro ⟨p, hp⟩
    cases st with
    | receipt cid₀ ck r =>
      cases h
      rw [verifierFresh_iff hp]
      constructor
      · rintro hall cid' ck' r' ⟨⟩
        exact hall
      · intro hall
        exact hall cid ck r rfl
    | audit s phase =>
      simp only [reduceCtorEq, false_imp_iff, implies_true, iff_true]
      simp only [Stored.subject?] at h
      split at h
      · cases h
        trivial
      split at h <;> cases h
      trivial
    | checkpoint s =>
      cases h
      simp [VerifierFresh]
    | rate uid entries => cases h
  rw [LogOk, LogOk, hcons, verifiersFresh_concat]
  constructor
  · rintro ⟨⟨hall, hp⟩, hv, hlast⟩
    exact ⟨⟨hall, hv⟩, hp, (hfresh hp).mpr hlast⟩
  · rintro ⟨⟨hall, hv⟩, hp, hf⟩
    exact ⟨⟨hall, hp⟩, hv, (hfresh hp).mp hf⟩

/-- The replay of a log succeeds with the tables of the automata, or fails, as the log is consistent
or not. -/
theorem replay_decides (cfg : Config) (total : ℕ) (hsts : ∀ st ∈ sts, st.Ok) :
    (LogOk sts ∧ ∃ R, sts.foldlM applyStored (Replay.init cfg total) = .ok R ∧
        Mirrors R (phases sts)) ∨
      (¬LogOk sts ∧ ∃ e, sts.foldlM applyStored (Replay.init cfg total) = .error e) := by
  induction sts using List.reverseRecOn with
  | nil =>
    refine Or.inl ⟨⟨fun _ => Or.inl rfl, ?_⟩, _, rfl, mirrors_init cfg total⟩
    intro pre cid ck r post heq
    simp at heq
  | append_singleton sts st ih =>
    have hfold : (sts ++ [st]).foldlM applyStored (Replay.init cfg total) =
        (sts.foldlM applyStored (Replay.init cfg total)).bind fun R => applyStored R st := by
      rw [List.foldlM_append]
      simp only [List.foldlM_cons, List.foldlM_nil, bind_pure]
      rfl
    rw [hfold]
    rcases ih fun s hs => hsts s (List.mem_append_left _ hs) with
      ⟨hlog, R, hR, hmirror⟩ | ⟨hlog, e, he⟩
    · rw [hR]
      have hok : st.Ok := hsts st (by simp)
      rcases hmirror.decides hok with ⟨hnone, hsame⟩ | ⟨cid, x, hsub, hdec⟩
      · refine Or.inl ⟨(logOk_concat_of_none hnone).mpr hlog, R, hsame, ?_⟩
        rw [phases_concat_of_none hnone]
        exact hmirror
      · rw [logOk_concat hsub, phases_concat hsub]
        rcases hdec with ⟨R', p, hR', hp, hfresh, hmirror'⟩ | ⟨⟨e, he⟩, hno⟩
        · rw [← hp] at hmirror'
          exact Or.inl ⟨⟨hlog, ⟨p, hp⟩, hfresh⟩, R', hR', hmirror'⟩
        · refine Or.inr ⟨?_, e, he⟩
          rintro ⟨-, ⟨p, hp⟩, hfresh⟩
          rcases hno with hnone | hnf
          · rw [hp] at hnone
            cases hnone
          · exact hnf hfresh
    · rw [he]
      refine Or.inr ⟨fun hlog' => hlog ?_, e, rfl⟩
      rcases hsub : st.subject? with _ | ⟨cid, x⟩
      · exact (logOk_concat_of_none hsub).mp hlog'
      · exact ((logOk_concat hsub).mp hlog').1

/-- Reconstruction accepts exactly the consistent logs, and then the open operations are those with
an opening record and no outcome, each as its opening record and its last receipt say. -/
theorem replay_accepts_iff (J : JsonCodec) (cfg : Config) (total : ℕ)
    (hsts : ∀ st ∈ sts, ∃ line, rabParseStored J line = some st) :
    ((∃ R, sts.foldlM applyStored (Replay.init cfg total) = .ok R) ↔
      (∀ cid, Consistent (itemsOf cid sts)) ∧ VerifiersFresh sts) ∧
    ∀ R, sts.foldlM applyStored (Replay.init cfg total) = .ok R →
      ∀ cid oi, R.tables.opens.view cid = some oi ↔
        ∃ checkpoint s r, Opened (itemsOf cid sts) checkpoint s r ∧
          oi = ⟨s.binding, s.actor, s.operation, s.resource, s.scope, r⟩ := by
  have hok : ∀ st ∈ sts, st.Ok := by
    intro st hst
    obtain ⟨line, hline⟩ := hsts st hst
    exact ok_of_rabParseStored hline
  rcases replay_decides cfg total hok with ⟨hlog, R, hR, hmirror⟩ | ⟨hlog, e, he⟩
  · refine ⟨⟨fun _ => hlog, fun _ => ⟨R, hR⟩⟩, ?_⟩
    intro R' hR' cid oi
    rw [hR] at hR'
    cases hR'
    simp only [hmirror.view_eq_some_iff, phases, phaseOf_eq_some_iff, PhaseSpec]
  · refine ⟨⟨fun ⟨R, hR⟩ => ?_, fun h => absurd h hlog⟩, fun R hR => ?_⟩
    · rw [he] at hR
      cases hR
    · rw [he] at hR
      cases hR

end Logs

/-- A segment that starts with the checkpoint of an intent, and the receipt that is issued then. -/
def Sample.carried : List Stored :=
  [rabBuildCheckpoint jsonText (Sample.cid 2000000 1).bytes (Sample.binding 1).bytes
      (Sample.actor 1000) 2000000 (lit "start") (lit "unit") [],
    rabBuildReceipt jsonText (Sample.cid 2000000 1).bytes .issued false (List.replicate 64 98) 1000
      (lit "start") (lit "unit") 1 Sample.planHash 5 6 Sample.bootId.bytes 7].filterMap
    fun line => line.bind (rabParseStored jsonText)

/-- The replay of that segment succeeds, so its records are consistent. -/
theorem replay_accepts_iff_carried :
    Sample.carried.length = 2 ∧ (∀ cid, Consistent (itemsOf cid Sample.carried)) ∧
      VerifiersFresh Sample.carried := by
  have hparsed : ∀ st ∈ Sample.carried, ∃ line, rabParseStored jsonText line = some st := by
    intro st hst
    obtain ⟨built, -, hbuilt⟩ := List.mem_filterMap.mp hst
    obtain ⟨line, -, hline⟩ := Option.bind_eq_some_iff.mp hbuilt
    exact ⟨line, hline⟩
  have hok : (Sample.carried.foldlM applyStored (Replay.init Sample.config 2)).toOption.isSome =
      true := by
    decide +kernel
  obtain ⟨R, hR⟩ := Option.isSome_iff_exists.mp hok
  refine ⟨by decide +kernel, (replay_accepts_iff jsonText Sample.config 2 hparsed).1.mp ⟨R, ?_⟩⟩
  cases hfold : Sample.carried.foldlM applyStored (Replay.init Sample.config 2) with
  | error e =>
    rw [hfold] at hR
    cases hR
  | ok R' =>
    rw [hfold] at hR
    rw [Option.some.inj hR]

end AuditBroker
