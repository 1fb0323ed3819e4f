import AuditBroker.Quota

/-!
# The open-intent set

Open intents are nodes in three chained hash tables: by correlation id, by binding, and, once they
have a receipt, by the verifier of the receipt.  A node is named by its address; `OpenSet.heap` is
its content.

`OpenSet.Wf` is the representation invariant.  Under it the three tables are one finite map from
correlation ids to open intents, `OpenSet.view`, and every operation is an update of that map:
`view_openAdd`, `view_openRemove`, `view_installReceipt` and `view_setReceipt`.
-/

namespace AuditBroker

open Foundation

/-! ## Hashing -/

/-- `hstr`: FNV-1a over a C string. -/
@[irreducible] def hstr (s : Bytes) : UInt64 :=
  s.foldl (fun h c => (h ^^^ c.toUInt64) * 1099511628211) 1469598103934665603

/-- `RAB_MAX_BUCKETS`. -/
abbrev maxBuckets : ℕ := 2 ^ 20

/-- The loop of `pow2_ceil`. -/
def pow2Loop (x : ℕ) : ℕ → ℕ → ℕ
  | 0, p => p
  | k + 1, p => if p < x ∧ p < maxBuckets then pow2Loop x k (p <<< 1) else p

/-- `pow2_ceil`: sixteen doublings take 16 to the greatest bucket count. -/
def pow2Ceil (x : ℕ) : ℕ := pow2Loop x 16 16

/-- The bucket of a string: its hash, masked with the bucket count less one. -/
def bucket (nbkt : ℕ) (s : Bytes) : ℕ := (hstr s).toNat &&& (nbkt - 1)

theorem bucket_lt {nbkt : ℕ} (h : 0 < nbkt) (s : Bytes) : bucket nbkt s < nbkt := by
  have hle : bucket nbkt s ≤ nbkt - 1 := Nat.and_le_right
  omega

theorem pow2Ceil_pos (x : ℕ) : 0 < pow2Ceil x := by
  have hloop : ∀ k p, 0 < p → 0 < pow2Loop x k p := by
    intro k
    induction k with
    | zero => exact fun p hp => hp
    | succ k ih =>
      intro p hp
      rw [pow2Loop]
      split
      · exact ih _ (by rw [Nat.shiftLeft_eq]; omega)
      · exact hp
  exact hloop 16 16 (by decide)

/-! ## The tables -/

/-- The verifier of an intent's receipt; empty when there is no receipt. -/
def Intent.verifier (it : Intent) : Bytes := (it.receipt.map fun r => r.verifier.bytes).getD []

/-- The open-intent tables of `struct rab_broker`. -/
structure OpenSet where
  /-- The node at an address. -/
  heap : ℕ → Intent
  /-- The first address not yet allocated. -/
  next : ℕ
  bktCid : Chains ℕ
  bktBind : Chains ℕ
  bktRcpt : Chains ℕ
  nbkt : ℕ
  openCount : ℕ

namespace OpenSet

/-- Empty tables. -/
def init (nbkt : ℕ) : OpenSet where
  heap := fun _ => default
  next := 0
  bktCid := fun _ => []
  bktBind := fun _ => []
  bktRcpt := fun _ => []
  nbkt := nbkt
  openCount := 0

/-- `open_find_binding`. -/
def openFindBinding (o : OpenSet) (binding : Bytes) : Option ℕ :=
  if binding = [] then none
  else (o.bktBind (bucket o.nbkt binding)).find? fun a => (o.heap a).binding.bytes == binding

/-- `open_find_cid`. -/
def openFindCid (o : OpenSet) (cid : Bytes) : Option ℕ :=
  (o.bktCid (bucket o.nbkt cid)).find? fun a => (o.heap a).cid.bytes == cid

/-- `open_find_verifier`. -/
def openFindVerifier (o : OpenSet) (vhex : Bytes) : Option ℕ :=
  if vhex = [] then none
  else
    (o.bktRcpt (bucket o.nbkt vhex)).find? fun a =>
      (o.heap a).receipt.isSome && (o.heap a).verifier == vhex

/-- `rcpt_index_add`. -/
def rcptIndexAdd (o : OpenSet) (a : ℕ) : OpenSet :=
  { o with bktRcpt := o.bktRcpt.push (bucket o.nbkt (o.heap a).verifier) a }

/-- `rcpt_index_remove`. -/
def rcptIndexRemove (o : OpenSet) (a : ℕ) : OpenSet :=
  { o with bktRcpt := o.bktRcpt.unlink (bucket o.nbkt (o.heap a).verifier) a }

/-- The table part of `open_add`. -/
def openAdd (o : OpenSet) (cid : Buf cidMax) (binding : Buf bindingMax) (actor : Actor)
    (operation resource : Buf metaMax) (scope : Buf scopeMax) : OpenSet :=
  { o with
    heap := Function.update o.heap o.next
      { binding, actor, operation, resource, scope, receipt := none, cid, fromCheckpoint := false }
    next := o.next + 1
    bktCid := o.bktCid.push (bucket o.nbkt cid.bytes) o.next
    bktBind := o.bktBind.push (bucket o.nbkt binding.bytes) o.next
    openCount := o.openCount + 1 }

/-- The table part of `open_remove`. -/
def openRemove (o : OpenSet) (a : ℕ) : OpenSet :=
  let it := o.heap a
  let o := { o with
    bktCid := o.bktCid.unlink (bucket o.nbkt it.cid.bytes) a
    bktBind := o.bktBind.unlink (bucket o.nbkt it.binding.bytes) a }
  let o := if it.receipt.isSome then o.rcptIndexRemove a else o
  { o with openCount := o.openCount - 1 }

/-- Write the receipt fields of a node. -/
def setReceipt (o : OpenSet) (a : ℕ) (r : Receipt) : OpenSet :=
  { o with heap := Function.update o.heap a { o.heap a with receipt := some r } }

/-- Install a first receipt on a node and index it. -/
def installReceipt (o : OpenSet) (a : ℕ) (r : Receipt) : OpenSet := (o.setReceipt a r).rcptIndexAdd a

/-- Mark a node as opened by a checkpoint. -/
def markCheckpoint (o : OpenSet) (a : ℕ) : OpenSet :=
  { o with heap := Function.update o.heap a { o.heap a with fromCheckpoint := true } }

/-- The nodes of all open intents, in the order of the by-cid table. -/
def walk (o : OpenSet) : List ℕ := o.bktCid.walk o.nbkt

/-! ## The representation invariant -/

/-- The node is linked in the by-cid table. -/
def Open (o : OpenSet) (a : ℕ) : Prop := a ∈ o.bktCid (bucket o.nbkt (o.heap a).cid.bytes)

/-- The representation invariant. -/
structure Wf (o : OpenSet) : Prop where
  nbkt_pos : 0 < o.nbkt
  /-- Every node is in the bucket of its correlation id. -/
  cid_placed : Chains.Placed (fun a => bucket o.nbkt (o.heap a).cid.bytes) o.bktCid
  /-- Every node is in the bucket of its binding. -/
  bind_placed : Chains.Placed (fun a => bucket o.nbkt (o.heap a).binding.bytes) o.bktBind
  /-- Every node is in the bucket of its verifier. -/
  rcpt_placed : Chains.Placed (fun a => bucket o.nbkt (o.heap a).verifier) o.bktRcpt
  /-- Linked nodes are allocated. -/
  lt_next : ∀ a, o.Open a → a < o.next
  /-- The by-binding table has the same nodes. -/
  bind_mem : ∀ a, a ∈ o.bktBind (bucket o.nbkt (o.heap a).binding.bytes) ↔ o.Open a
  /-- The by-verifier table has the nodes with a receipt. -/
  rcpt_mem : ∀ a, a ∈ o.bktRcpt (bucket o.nbkt (o.heap a).verifier) ↔
    o.Open a ∧ (o.heap a).receipt.isSome = true
  /-- No two open intents share a correlation id. -/
  cid_inj : ∀ a b, o.Open a → o.Open b → (o.heap a).cid = (o.heap b).cid → a = b

/-- The map that the tables stand for. -/
def view (o : OpenSet) (cid : Buf cidMax) : Option OpenIntent :=
  (o.openFindCid cid.bytes).map fun a => (o.heap a).toOpenIntent

variable {o : OpenSet} {a b : ℕ}

theorem wf_init {nbkt : ℕ} (h : 0 < nbkt) : (init nbkt).Wf where
  nbkt_pos := h
  cid_placed := Chains.placed_empty
  bind_placed := Chains.placed_empty
  rcpt_placed := Chains.placed_empty
  lt_next := by simp [Open, init]
  bind_mem := by simp [Open, init]
  rcpt_mem := by simp [Open, init]
  cid_inj := by simp [Open, init]

@[simp] theorem view_init (nbkt : ℕ) : (init nbkt).view = fun _ => none := rfl

/-- Lookup by correlation id. -/
theorem Wf.openFindCid_eq_some_iff (h : o.Wf) {cid : Buf cidMax} :
    o.openFindCid cid.bytes = some a ↔ o.Open a ∧ (o.heap a).cid = cid := by
  have hfind := Chains.find?_eq_some_iff (c := o.bktCid) (a := a) (k := cid.bytes)
    (fun a => (o.heap a).cid.bytes) (bucket o.nbkt)
    (fun a b ha hb hk => h.cid_inj a b ha hb (Buf.ext hk))
  rw [openFindCid, hfind, Buf.ext_iff']
  rfl

/-- The map has a correlation id exactly when a node with it is linked. -/
theorem Wf.view_eq_some_iff (h : o.Wf) {cid : Buf cidMax} {oi : OpenIntent} :
    o.view cid = some oi ↔
      ∃ a, o.Open a ∧ (o.heap a).cid = cid ∧ (o.heap a).toOpenIntent = oi := by
  simp only [view, Option.map_eq_some_iff, h.openFindCid_eq_some_iff, and_assoc]

/-- The map has no intent for a correlation id exactly when no node has it. -/
theorem Wf.view_eq_none_iff (h : o.Wf) {cid : Buf cidMax} :
    o.view cid = none ↔ ∀ a, o.Open a → (o.heap a).cid ≠ cid := by
  rw [Option.eq_none_iff_forall_ne_some]
  constructor
  · intro hn a ha hcid
    exact hn _ (h.view_eq_some_iff.mpr ⟨a, ha, hcid, rfl⟩)
  · intro hn oi hoi
    obtain ⟨a, ha, hcid, -⟩ := h.view_eq_some_iff.mp hoi
    exact hn a ha hcid

/-- A linked node is the map's value at its correlation id. -/
theorem Wf.view_of_open (h : o.Wf) (ha : o.Open a) :
    o.view (o.heap a).cid = some (o.heap a).toOpenIntent :=
  h.view_eq_some_iff.mpr ⟨a, ha, rfl, rfl⟩

/-- Linked nodes are not the next address. -/
theorem Wf.ne_next (h : o.Wf) (ha : o.Open a) : a ≠ o.next := (h.lt_next a ha).ne

/-! ## Opening -/

section Add

variable {cid : Buf cidMax} {binding : Buf bindingMax} {actor : Actor}
  {operation resource : Buf metaMax} {scope : Buf scopeMax}

theorem heap_openAdd_of_ne (h : a ≠ o.next) :
    (o.openAdd cid binding actor operation resource scope).heap a = o.heap a :=
  Function.update_of_ne h _ _

theorem heap_openAdd_next :
    (o.openAdd cid binding actor operation resource scope).heap o.next =
      { binding, actor, operation, resource, scope, receipt := none, cid,
        fromCheckpoint := false } :=
  Function.update_self _ _ _

/-- The linked nodes after `open_add`: the new one and the old ones. -/
theorem open_openAdd :
    (o.openAdd cid binding actor operation resource scope).Open a ↔ a = o.next ∨ o.Open a := by
  unfold Open
  by_cases hne : a = o.next
  · subst hne
    rw [heap_openAdd_next]
    simp [openAdd, Chains.mem_push]
  · rw [heap_openAdd_of_ne hne]
    simp [openAdd, Chains.mem_push, hne]

/-- The next address is in no chain. -/
theorem Wf.next_notMem (h : o.Wf) (k : ℕ) :
    o.next ∉ o.bktCid k ∧ o.next ∉ o.bktBind k ∧ o.next ∉ o.bktRcpt k := by
  have hopen : ¬o.Open o.next := fun ha => h.ne_next ha rfl
  refine ⟨fun hm => hopen (h.cid_placed.mem_slot hm),
    fun hm => hopen ((h.bind_mem _).mp (h.bind_placed.mem_slot hm)),
    fun hm => hopen ((h.rcpt_mem _).mp (h.rcpt_placed.mem_slot hm)).1⟩

/-- `open_add` keeps the representation invariant when the correlation id is new. -/
theorem Wf.openAdd (h : o.Wf) (hfresh : o.view cid = none) :
    (o.openAdd cid binding actor operation resource scope).Wf := by
  set o' := o.openAdd cid binding actor operation resource scope with ho'
  have hopen : ∀ {a}, o'.Open a ↔ a = o.next ∨ o.Open a := open_openAdd
  have hheap : ∀ {a}, a ≠ o.next → o'.heap a = o.heap a := heap_openAdd_of_ne
  have hnext : o'.heap o.next = _ := heap_openAdd_next
  have hout := h.next_notMem
  constructor
  · exact h.nbkt_pos
  · have hp : Chains.Placed (fun a => bucket o.nbkt (o'.heap a).cid.bytes) o.bktCid :=
      h.cid_placed.congr fun k a ha => by
        simp only [hheap fun heq => (hout k).1 (heq ▸ ha)]
    have hpush := hp.push (a := o.next) (hout _).1
    simp only [hnext] at hpush
    exact hpush
  · have hp : Chains.Placed (fun a => bucket o.nbkt (o'.heap a).binding.bytes) o.bktBind :=
      h.bind_placed.congr fun k a ha => by
        simp only [hheap fun heq => (hout k).2.1 (heq ▸ ha)]
    have hpush := hp.push (a := o.next) (hout _).2.1
    simp only [hnext] at hpush
    exact hpush
  · exact h.rcpt_placed.congr fun k a ha => by
      simp only [hheap fun heq => (hout k).2.2 (heq ▸ ha)]
      rfl
  · intro a ha
    rcases hopen.mp ha with rfl | ha
    · exact Nat.lt_succ_self _
    · exact Nat.lt_succ_of_lt (h.lt_next a ha)
  · intro a
    by_cases hne : a = o.next
    · subst hne
      simp only [hopen, true_or, iff_true, hnext]
      exact Chains.mem_push.mpr (Or.inl ⟨rfl, rfl⟩)
    · rw [hopen, hheap hne, or_iff_right hne, ← h.bind_mem a]
      simp [ho', OpenSet.openAdd, Chains.mem_push, hne]
  · intro a
    by_cases hne : a = o.next
    · subst hne
      simp only [hnext, Option.isSome_none, Bool.false_eq_true, and_false, iff_false]
      exact (hout _).2.2
    · rw [hopen, hheap hne, or_iff_right hne, ← h.rcpt_mem a]
      rfl
  · have hcid := h.view_eq_none_iff.mp hfresh
    intro a b ha hb heq
    rcases hopen.mp ha with rfl | ha <;> rcases hopen.mp hb with rfl | hb
    · rfl
    · rw [hnext, hheap (h.ne_next hb)] at heq
      exact absurd heq.symm (hcid b hb)
    · rw [hnext, hheap (h.ne_next ha)] at heq
      exact absurd heq (hcid a ha)
    · rw [hheap (h.ne_next ha), hheap (h.ne_next hb)] at heq
      exact h.cid_inj a b ha hb heq

/-- `open_add` adds the intent to the map. -/
theorem Wf.view_openAdd (h : o.Wf) (hfresh : o.view cid = none) :
    (o.openAdd cid binding actor operation resource scope).view =
      Function.update o.view cid
        (some { binding, actor, operation, resource, scope, receipt := none }) := by
  have h' : (o.openAdd cid binding actor operation resource scope).Wf := h.openAdd hfresh
  funext c
  refine Option.ext fun oi => ?_
  rw [h'.view_eq_some_iff]
  by_cases hc : c = cid
  · subst hc
    rw [Function.update_self]
    constructor
    · rintro ⟨a, ha, hcid, rfl⟩
      rcases open_openAdd.mp ha with rfl | ha
      · rw [heap_openAdd_next]
      · rw [heap_openAdd_of_ne (h.ne_next ha)] at hcid
        exact absurd hcid (h.view_eq_none_iff.mp hfresh a ha)
    · rintro ⟨⟩
      exact ⟨o.next, open_openAdd.mpr (Or.inl rfl), by rw [heap_openAdd_next],
        by rw [heap_openAdd_next]⟩
  · rw [Function.update_of_ne hc, h.view_eq_some_iff]
    constructor
    · rintro ⟨a, ha, hcid, rfl⟩
      rcases open_openAdd.mp ha with rfl | ha
      · rw [heap_openAdd_next] at hcid
        exact absurd hcid.symm hc
      · rw [heap_openAdd_of_ne (h.ne_next ha)] at hcid ⊢
        exact ⟨a, ha, hcid, rfl⟩
    · rintro ⟨a, ha, hcid, rfl⟩
      refine ⟨a, open_openAdd.mpr (Or.inr ha), ?_, ?_⟩
      · rw [heap_openAdd_of_ne (h.ne_next ha), hcid]
      · rw [heap_openAdd_of_ne (h.ne_next ha)]

end Add

/-! ## Closing -/

/-- What `open_remove` does to the tables. -/
theorem openRemove_eq (o : OpenSet) (a : ℕ) :
    o.openRemove a =
      { o with
        bktCid := o.bktCid.unlink (bucket o.nbkt (o.heap a).cid.bytes) a
        bktBind := o.bktBind.unlink (bucket o.nbkt (o.heap a).binding.bytes) a
        bktRcpt := if (o.heap a).receipt.isSome then
          o.bktRcpt.unlink (bucket o.nbkt (o.heap a).verifier) a else o.bktRcpt
        openCount := o.openCount - 1 } := by
  by_cases hr : (o.heap a).receipt.isSome = true
  · simp only [openRemove, rcptIndexRemove, hr, if_true]
  · simp only [openRemove, hr, if_false, Bool.false_eq_true]

@[simp] theorem heap_openRemove (o : OpenSet) (a : ℕ) : (o.openRemove a).heap = o.heap := by
  rw [openRemove_eq]

/-- The linked nodes after `open_remove`. -/
theorem Wf.open_openRemove (h : o.Wf) : (o.openRemove a).Open b ↔ b ≠ a ∧ o.Open b := by
  unfold Open
  rw [openRemove_eq]
  exact Chains.mem_unlink h.cid_placed

/-- `open_remove` keeps the representation invariant. -/
theorem Wf.openRemove (h : o.Wf) (a : ℕ) : (o.openRemove a).Wf := by
  have hopen : ∀ {b}, (o.openRemove a).Open b ↔ b ≠ a ∧ o.Open b := h.open_openRemove
  constructor
  · rw [openRemove_eq]
    exact h.nbkt_pos
  · rw [openRemove_eq]
    exact h.cid_placed.unlink a
  · rw [openRemove_eq]
    exact h.bind_placed.unlink a
  · rw [openRemove_eq]
    by_cases hr : (o.heap a).receipt.isSome
    · simp only [hr, if_true]
      exact h.rcpt_placed.unlink a
    · simp only [hr]
      exact h.rcpt_placed
  · intro b hb
    rw [openRemove_eq]
    exact h.lt_next b (hopen.mp hb).2
  · intro b
    rw [hopen, ← h.bind_mem b, openRemove_eq]
    exact Chains.mem_unlink h.bind_placed
  · intro b
    have hmem := h.rcpt_mem b
    rw [hopen, and_assoc, heap_openRemove, ← hmem, openRemove_eq]
    by_cases hr : (o.heap a).receipt.isSome
    · simp only [hr, if_true]
      exact Chains.mem_unlink h.rcpt_placed
    · simp only [hr]
      refine ⟨fun hb => ⟨?_, hb⟩, fun hb => hb.2⟩
      rintro rfl
      exact hr (hmem.mp hb).2
  · intro b c hb hc heq
    rw [heap_openRemove] at heq
    exact h.cid_inj b c (hopen.mp hb).2 (hopen.mp hc).2 heq

/-- `open_remove` takes the intent out of the map. -/
theorem Wf.view_openRemove (h : o.Wf) (ha : o.Open a) :
    (o.openRemove a).view = Function.update o.view (o.heap a).cid none := by
  have h' := h.openRemove a
  funext c
  refine Option.ext fun oi => ?_
  rw [h'.view_eq_some_iff]
  simp only [h.open_openRemove, heap_openRemove]
  by_cases hc : c = (o.heap a).cid
  · subst hc
    simp only [Function.update_self, reduceCtorEq, iff_false]
    rintro ⟨b, ⟨hne, hb⟩, hcid, -⟩
    exact hne (h.cid_inj b a hb ha hcid)
  · rw [Function.update_of_ne hc, h.view_eq_some_iff]
    constructor
    · rintro ⟨b, ⟨-, hb⟩, hcid, hoi⟩
      exact ⟨b, hb, hcid, hoi⟩
    · rintro ⟨b, hb, hcid, hoi⟩
      refine ⟨b, ⟨?_, hb⟩, hcid, hoi⟩
      rintro rfl
      exact hc hcid.symm

/-! ## Writing to a node -/

/-- The representation invariant depends only on the keys of the nodes. -/
theorem Wf.congr (h : o.Wf) {heap : ℕ → Intent} (hcid : ∀ a, (heap a).cid = (o.heap a).cid)
    (hbind : ∀ a, (heap a).binding = (o.heap a).binding)
    (hver : ∀ a, (heap a).verifier = (o.heap a).verifier)
    (hrcpt : ∀ a, (heap a).receipt.isSome = (o.heap a).receipt.isSome) :
    ({ o with heap } : OpenSet).Wf := by
  have hopen : ∀ a, ({ o with heap } : OpenSet).Open a ↔ o.Open a := by
    intro a
    simp only [Open, hcid]
  constructor
  · exact h.nbkt_pos
  · exact h.cid_placed.congr fun _ a _ => by simp only [hcid]
  · exact h.bind_placed.congr fun _ a _ => by simp only [hbind]
  · exact h.rcpt_placed.congr fun _ a _ => by simp only [hver]
  · exact fun a ha => h.lt_next a ((hopen a).mp ha)
  · intro a
    rw [hopen, ← h.bind_mem a]
    simp only [hbind]
  · intro a
    simp only [hopen, hver, hrcpt]
    exact h.rcpt_mem a
  · intro a b ha hb heq
    simp only [hcid] at heq
    exact h.cid_inj a b ((hopen a).mp ha) ((hopen b).mp hb) heq

/-- Replacing the content of one linked node replaces the map's value at its correlation id. -/
theorem Wf.view_congr {o' : OpenSet} (h : o.Wf) (h' : o'.Wf) (ha : o.Open a)
    (hopen : ∀ b, o'.Open b ↔ o.Open b) (hcid : ∀ b, (o'.heap b).cid = (o.heap b).cid)
    (hheap : ∀ b, b ≠ a → o'.heap b = o.heap b) :
    o'.view = Function.update o.view (o.heap a).cid (some (o'.heap a).toOpenIntent) := by
  funext c
  refine Option.ext fun oi => ?_
  rw [h'.view_eq_some_iff]
  simp only [hopen, hcid]
  by_cases hc : c = (o.heap a).cid
  · subst hc
    rw [Function.update_self]
    constructor
    · rintro ⟨b, hb, hbc, rfl⟩
      rw [h.cid_inj b a hb ha hbc]
    · rintro ⟨⟩
      exact ⟨a, ha, rfl, rfl⟩
  · rw [Function.update_of_ne hc, h.view_eq_some_iff]
    have hne : ∀ b, (o.heap b).cid = c → b ≠ a := by
      rintro b hb rfl
      exact hc hb.symm
    constructor
    · rintro ⟨b, hb, hbc, rfl⟩
      exact ⟨b, hb, hbc, by rw [hheap b (hne b hbc)]⟩
    · rintro ⟨b, hb, hbc, rfl⟩
      exact ⟨b, hb, hbc, by rw [hheap b (hne b hbc)]⟩

section Receipt

variable {r r₀ : Receipt}

theorem heap_setReceipt_of_ne (h : b ≠ a) : (o.setReceipt a r).heap b = o.heap b :=
  Function.update_of_ne h _ _

theorem heap_setReceipt_self : (o.setReceipt a r).heap a = { o.heap a with receipt := some r } :=
  Function.update_self _ _ _

theorem cid_setReceipt : ((o.setReceipt a r).heap b).cid = (o.heap b).cid := by
  by_cases hb : b = a
  · rw [hb, heap_setReceipt_self]
  · rw [heap_setReceipt_of_ne hb]

theorem binding_setReceipt : ((o.setReceipt a r).heap b).binding = (o.heap b).binding := by
  by_cases hb : b = a
  · rw [hb, heap_setReceipt_self]
  · rw [heap_setReceipt_of_ne hb]

theorem open_setReceipt : (o.setReceipt a r).Open b ↔ o.Open b := by
  unfold Open
  rw [cid_setReceipt]
  rfl

/-- Advancing a receipt that is already installed. -/
theorem Wf.setReceipt (h : o.Wf) (hr : (o.heap a).receipt = some r₀)
    (hv : r.verifier = r₀.verifier) : (o.setReceipt a r).Wf := by
  refine h.congr (fun _ => cid_setReceipt) (fun _ => binding_setReceipt) ?_ ?_
  · intro b
    by_cases hb : b = a
    · subst hb
      have hself : (Function.update o.heap b { o.heap b with receipt := some r }) b = _ :=
        Function.update_self _ _ _
      rw [hself]
      simp [Intent.verifier, hr, hv]
    · rw [Function.update_of_ne hb]
  · intro b
    by_cases hb : b = a
    · subst hb
      rw [Function.update_self, hr]
      rfl
    · rw [Function.update_of_ne hb]

theorem Wf.view_setReceipt (h : o.Wf) (ha : o.Open a) (hr : (o.heap a).receipt = some r₀)
    (hv : r.verifier = r₀.verifier) :
    (o.setReceipt a r).view = Function.update o.view (o.heap a).cid
      (some { (o.heap a).toOpenIntent with receipt := some r }) := by
  rw [h.view_congr (h.setReceipt hr hv) ha (fun _ => open_setReceipt) (fun _ => cid_setReceipt)
    (fun _ => heap_setReceipt_of_ne), heap_setReceipt_self]

theorem heap_installReceipt : (o.installReceipt a r).heap = (o.setReceipt a r).heap := rfl

theorem open_installReceipt : (o.installReceipt a r).Open b ↔ o.Open b := open_setReceipt

/-- Installing a first receipt. -/
theorem Wf.installReceipt (h : o.Wf) (ha : o.Open a) (hr : (o.heap a).receipt = none) :
    (o.installReceipt a r).Wf := by
  have hver : ∀ b, b ≠ a → ((o.setReceipt a r).heap b).verifier = (o.heap b).verifier := by
    intro b hb
    rw [heap_setReceipt_of_ne hb]
  -- a node without a receipt is in no chain of the by-verifier table
  have hout : ∀ k, a ∉ o.bktRcpt k := by
    intro k hk
    have hsome := ((h.rcpt_mem a).mp (h.rcpt_placed.mem_slot hk)).2
    rw [hr] at hsome
    cases hsome
  have hplaced : Chains.Placed (fun b => bucket o.nbkt ((o.setReceipt a r).heap b).verifier)
      o.bktRcpt :=
    h.rcpt_placed.congr fun k b hb => by
      rw [hver b fun heq => hout k (heq ▸ hb)]
  constructor
  · exact h.nbkt_pos
  · exact h.cid_placed.congr fun _ b _ => by rw [heap_installReceipt, cid_setReceipt]; rfl
  · exact h.bind_placed.congr fun _ b _ => by rw [heap_installReceipt, binding_setReceipt]; rfl
  · exact hplaced.push (hout _)
  · exact fun b hb => h.lt_next b (open_installReceipt.mp hb)
  · intro b
    rw [open_installReceipt, ← h.bind_mem b, heap_installReceipt, binding_setReceipt]
    rfl
  · intro b
    rw [open_installReceipt, heap_installReceipt]
    by_cases hb : b = a
    · subst hb
      simp only [heap_setReceipt_self, Option.isSome_some, and_true, ha, iff_true]
      exact Chains.mem_push.mpr (Or.inl ⟨rfl, by rw [heap_setReceipt_self]; rfl⟩)
    · rw [heap_setReceipt_of_ne hb, ← h.rcpt_mem b]
      exact Chains.mem_push.trans (or_iff_right fun hc => hb hc.1)
  · intro b c hb hc heq
    rw [heap_installReceipt, cid_setReceipt, cid_setReceipt] at heq
    exact h.cid_inj b c (open_installReceipt.mp hb) (open_installReceipt.mp hc) heq

theorem Wf.view_installReceipt (h : o.Wf) (ha : o.Open a) (hr : (o.heap a).receipt = none) :
    (o.installReceipt a r).view = Function.update o.view (o.heap a).cid
      (some { (o.heap a).toOpenIntent with receipt := some r }) := by
  rw [h.view_congr (h.installReceipt ha hr) ha (fun _ => open_installReceipt)
    (fun _ => cid_setReceipt) (fun _ => heap_setReceipt_of_ne), heap_installReceipt,
    heap_setReceipt_self]

end Receipt

/-- Marking a node changes no key and not the map. -/
theorem Wf.markCheckpoint (h : o.Wf) (ha : o.Open a) :
    (o.markCheckpoint a).Wf ∧ (o.markCheckpoint a).view = o.view ∧
      ∀ b, (o.markCheckpoint a).Open b ↔ o.Open b := by
  have hkeys : ∀ b, ((o.markCheckpoint a).heap b).toOpenIntent = (o.heap b).toOpenIntent ∧
      ((o.markCheckpoint a).heap b).cid = (o.heap b).cid := by
    intro b
    by_cases hb : b = a
    · subst hb
      simp [OpenSet.markCheckpoint]
    · simp [OpenSet.markCheckpoint, Function.update_of_ne hb]
  have hopen : ∀ b, (o.markCheckpoint a).Open b ↔ o.Open b := by
    intro b
    unfold Open
    rw [(hkeys b).2]
    rfl
  have hwf : (o.markCheckpoint a).Wf := by
    refine h.congr (fun b => (hkeys b).2) (fun b => ?_) (fun b => ?_) (fun b => ?_)
    · exact congrArg OpenIntent.binding (hkeys b).1
    · exact congrArg (fun oi : OpenIntent => (oi.receipt.map fun r => r.verifier.bytes).getD [])
        (hkeys b).1
    · exact congrArg (fun oi : OpenIntent => oi.receipt.isSome) (hkeys b).1
  refine ⟨hwf, ?_, hopen⟩
  rw [h.view_congr hwf ha hopen (fun b => (hkeys b).2)
    (fun b hb => Function.update_of_ne hb _ _), (hkeys a).1, ← h.view_of_open ha,
    Function.update_eq_self]

/-! ## Lookup by binding and by verifier -/

/-- A node found by its binding is open and has that binding. -/
theorem Wf.of_openFindBinding (h : o.Wf) {binding : Bytes}
    (hf : o.openFindBinding binding = some a) :
    o.Open a ∧ (o.heap a).binding.bytes = binding := by
  unfold openFindBinding at hf
  split at hf
  · cases hf
  · have hb : (o.heap a).binding.bytes = binding := by simpa using List.find?_some hf
    refine ⟨(h.bind_mem a).mp ?_, hb⟩
    rw [hb]
    exact List.mem_of_find?_eq_some hf

/-- No node is found by a binding exactly when no open intent has it. -/
theorem Wf.openFindBinding_eq_none_iff (h : o.Wf) {binding : Bytes} (hne : binding ≠ []) :
    o.openFindBinding binding = none ↔
      ∀ cid oi, o.view cid = some oi → oi.binding.bytes ≠ binding := by
  constructor
  · rintro hf cid oi hoi rfl
    obtain ⟨a, ha, -, rfl⟩ := h.view_eq_some_iff.mp hoi
    rw [openFindBinding, if_neg hne, List.find?_eq_none] at hf
    exact hf a ((h.bind_mem a).mpr ha) (by simp)
  · intro hall
    rw [Option.eq_none_iff_forall_ne_some]
    intro a ha
    obtain ⟨hopen, hb⟩ := h.of_openFindBinding ha
    exact hall _ _ (h.view_of_open hopen) hb

/-- A node found by its verifier is open and has a receipt with that verifier. -/
theorem Wf.of_openFindVerifier (h : o.Wf) {vhex : Bytes} (hf : o.openFindVerifier vhex = some a) :
    o.Open a ∧ ∃ r, (o.heap a).receipt = some r ∧ r.verifier.bytes = vhex := by
  unfold openFindVerifier at hf
  split at hf
  · cases hf
  · have hp := List.find?_some hf
    simp only [Bool.and_eq_true, beq_iff_eq] at hp
    obtain ⟨r, hr⟩ := Option.isSome_iff_exists.mp hp.1
    have hv : (o.heap a).verifier = r.verifier.bytes := by simp [Intent.verifier, hr]
    refine ⟨((h.rcpt_mem a).mp ?_).1, r, hr, hv ▸ hp.2⟩
    rw [hp.2]
    exact List.mem_of_find?_eq_some hf

/-- No node is found by a verifier exactly when no open intent has it. -/
theorem Wf.openFindVerifier_eq_none_iff (h : o.Wf) {vhex : Bytes} (hne : vhex ≠ []) :
    o.openFindVerifier vhex = none ↔
      ∀ cid oi r, o.view cid = some oi → oi.receipt = some r → r.verifier.bytes ≠ vhex := by
  constructor
  · rintro hf cid oi r hoi hr rfl
    obtain ⟨a, ha, -, rfl⟩ := h.view_eq_some_iff.mp hoi
    have hv : (o.heap a).verifier = r.verifier.bytes := by simp [Intent.verifier, hr]
    have hm := (h.rcpt_mem a).mpr ⟨ha, by rw [hr]; rfl⟩
    rw [openFindVerifier, if_neg hne, List.find?_eq_none] at hf
    rw [hv] at hm
    exact hf a hm (by simp [hr, hv])
  · intro hall
    rw [Option.eq_none_iff_forall_ne_some]
    intro a ha
    obtain ⟨hopen, r, hr, hv⟩ := h.of_openFindVerifier ha
    exact hall _ _ r (h.view_of_open hopen) hr hv

end OpenSet

end AuditBroker
