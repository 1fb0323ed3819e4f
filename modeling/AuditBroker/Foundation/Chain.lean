import Mathlib.Data.List.Nodup
import Mathlib.Logic.Function.Basic

/-!
# Chained hash tables

A table maps a bucket number to its chain.  Elements are identities (addresses of nodes), so an
element is unlinked by identity and found by a property of the node.  `Chains.Placed slot c` says
that every element is in the bucket `slot` assigns to it, once.

`find?_eq_some_iff` is the lookup law: in a table in which a key determines its element, the walk of one
chain finds exactly the element with that key.
-/

namespace Foundation

variable {α κ : Type*}

/-- A chained hash table: each bucket's chain, newest element first. -/
abbrev Chains (α : Type*) := ℕ → List α

namespace Chains

/-- Link an element at the front of a chain. -/
def push (c : Chains α) (h : ℕ) (a : α) : Chains α := Function.update c h (a :: c h)

/-- Unlink an element from a chain. -/
def unlink [DecidableEq α] (c : Chains α) (h : ℕ) (a : α) : Chains α :=
  Function.update c h ((c h).erase a)

/-- All elements of the first `n` buckets, bucket by bucket. -/
def walk (c : Chains α) (n : ℕ) : List α := (List.range n).flatMap c

/-- Every element is in its own bucket, and only once. -/
structure Placed (slot : α → ℕ) (c : Chains α) : Prop where
  /-- An element is only in its own bucket. -/
  slot_eq : ∀ {h a}, a ∈ c h → slot a = h
  /-- No chain has an element twice. -/
  nodup : ∀ h, (c h).Nodup

variable {slot slot' : α → ℕ} {c : Chains α} {a b : α} {h : ℕ}

theorem placed_empty : Placed slot fun _ => ([] : List α) := ⟨by simp, by simp⟩

theorem mem_push {k : ℕ} : b ∈ c.push k a h ↔ (b = a ∧ h = k) ∨ b ∈ c h := by
  unfold push
  rcases eq_or_ne h k with rfl | hne
  · simp
  · simp [hne]

/-- Linking a new element. -/
theorem Placed.push (hc : Placed slot c) (ha : a ∉ c (slot a)) :
    Placed slot (c.push (slot a) a) := by
  constructor
  · intro h b hb
    rcases mem_push.mp hb with ⟨rfl, rfl⟩ | hb
    · rfl
    · exact hc.slot_eq hb
  · intro h
    unfold Chains.push
    rcases eq_or_ne h (slot a) with rfl | hne
    · rw [Function.update_self]
      exact List.nodup_cons.mpr ⟨ha, hc.nodup _⟩
    · rw [Function.update_of_ne hne]
      exact hc.nodup h

theorem mem_unlink [DecidableEq α] (hc : Placed slot c) :
    b ∈ c.unlink (slot a) a h ↔ b ≠ a ∧ b ∈ c h := by
  unfold unlink
  rcases eq_or_ne h (slot a) with rfl | hne
  · rw [Function.update_self, (hc.nodup _).mem_erase_iff]
  · rw [Function.update_of_ne hne]
    refine ⟨fun hb => ⟨?_, hb⟩, fun hb => hb.2⟩
    rintro rfl
    exact hne (hc.slot_eq hb).symm

/-- Unlinking an element. -/
theorem Placed.unlink [DecidableEq α] (hc : Placed slot c) (a : α) :
    Placed slot (c.unlink (slot a) a) := by
  constructor
  · intro h b hb
    exact hc.slot_eq ((mem_unlink hc).mp hb).2
  · intro h
    unfold Chains.unlink
    rcases eq_or_ne h (slot a) with rfl | hne
    · rw [Function.update_self]
      exact (hc.nodup _).erase a
    · rw [Function.update_of_ne hne]
      exact hc.nodup h

/-- The placement depends only on the buckets of the elements that are there. -/
theorem Placed.congr (hc : Placed slot c) (hs : ∀ h a, a ∈ c h → slot' a = slot a) :
    Placed slot' c :=
  ⟨fun hm => (hs _ _ hm).trans (hc.slot_eq hm), hc.nodup⟩

/-- An element is in the table when it is in its own bucket. -/
theorem Placed.mem_slot (hc : Placed slot c) (hm : a ∈ c h) : a ∈ c (slot a) := by
  rw [hc.slot_eq hm]
  exact hm

/-- The lookup law. -/
theorem find?_eq_some_iff [BEq κ] [LawfulBEq κ] (key : α → κ) (hash : κ → ℕ)
    (hinj : ∀ a b, a ∈ c (hash (key a)) → b ∈ c (hash (key b)) → key a = key b → a = b) {k : κ} :
    (c (hash k)).find? (fun a => key a == k) = some a ↔ a ∈ c (hash (key a)) ∧ key a = k := by
  constructor
  · intro hf
    have hk : key a = k := by simpa using List.find?_some hf
    have hm := List.mem_of_find?_eq_some hf
    rw [hk]
    exact ⟨hm, rfl⟩
  · rintro ⟨hm, rfl⟩
    rcases hf : (c (hash (key a))).find? (fun b => key b == key a) with _ | b
    · exact absurd (List.find?_eq_none.mp hf a hm) (by simp)
    · have hk : key b = key a := by simpa using List.find?_some hf
      have hb : b ∈ c (hash (key b)) := hk ▸ List.mem_of_find?_eq_some hf
      rw [hinj b a hb hm hk]

/-- A walk of all buckets visits exactly the elements of the table. -/
theorem Placed.mem_walk (hc : Placed slot c) {n : ℕ} (hn : ∀ a, slot a < n) :
    a ∈ c.walk n ↔ a ∈ c (slot a) := by
  simp only [walk, List.mem_flatMap, List.mem_range]
  constructor
  · rintro ⟨h, -, hm⟩
    exact hc.mem_slot hm
  · intro hm
    exact ⟨slot a, hn a, hm⟩

/-- A walk visits no element twice. -/
theorem Placed.nodup_walk (hc : Placed slot c) (n : ℕ) : (c.walk n).Nodup := by
  rw [walk, List.nodup_flatMap]
  refine ⟨fun h _ => hc.nodup h, List.nodup_range.imp fun {i j} hij => ?_⟩
  intro x hx hy
  exact hij ((hc.slot_eq hx).symm.trans (hc.slot_eq hy))

end Chains

end Foundation
