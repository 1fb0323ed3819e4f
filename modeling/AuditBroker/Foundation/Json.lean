import AuditBroker.Foundation.Text
import Mathlib.Data.List.Nodup

/-!
# JSON values and the interface of a JSON library

`Json` is the value model of a C JSON library: 64-bit integers, IEEE doubles (by their bit pattern),
strings of octets, and objects that keep their members in insertion order.  `member?` and
`setMember` are the lookup and the in-place insertion of such an object.

A value is well formed (`Json.wf`) when its strings are UTF-8 without a zero octet, its integers
fit 64 bits, its reals are finite and no object has two members of one name.  These are the values a
loader can return.  `JsonCodec` is what a program relies on of the library: a compact writer and a
duplicate-rejecting reader such that what was written is read back, on one line.
-/

namespace Foundation

/-- A JSON value. -/
inductive Json where
  /-- `null`. -/
  | null
  /-- `true` or `false`. -/
  | bool (b : Bool)
  /-- An integer. -/
  | int (n : ℤ)
  /-- A real number, as the bit pattern of an IEEE double. -/
  | real (bits : UInt64)
  /-- A string. -/
  | str (s : Bytes)
  /-- An array. -/
  | arr (items : List Json)
  /-- An object, its members in insertion order. -/
  | obj (members : List (String × Json))

/-- The members of an object, in insertion order. -/
abbrev Members := List (String × Json)

/-! ## Objects -/

/-- The value of the member named `k`. -/
def member? : Members → String → Option Json
  | [], _ => none
  | (k', v) :: ms, k => if k' = k then some v else member? ms k

/-- Insert a member: an existing one of that name is overwritten in place, a new one comes last. -/
def setMember : Members → String → Json → Members
  | [], k, v => [(k, v)]
  | (k', v') :: ms, k, v => if k' = k then (k, v) :: ms else (k', v') :: setMember ms k v

@[simp] theorem member?_nil (k : String) : member? [] k = none := rfl

@[simp] theorem member?_cons (k' : String) (v : Json) (ms : Members) (k : String) :
    member? ((k', v) :: ms) k = if k' = k then some v else member? ms k := rfl

/-- A member of a concatenation is looked for in the first part first. -/
theorem member?_append (as bs : Members) (k : String) :
    member? (as ++ bs) k = (member? as k).or (member? bs k) := by
  induction as with
  | nil => simp
  | cons a as ih =>
    obtain ⟨k', v⟩ := a
    rw [List.cons_append, member?_cons, member?_cons, ih]
    split <;> simp

/-- A name that no member has is not found. -/
theorem member?_eq_none {ms : Members} {k : String} (h : k ∉ ms.map Prod.fst) :
    member? ms k = none := by
  induction ms with
  | nil => rfl
  | cons a ms ih =>
    obtain ⟨k', v⟩ := a
    simp only [List.map_cons, List.mem_cons, not_or] at h
    rw [member?_cons, if_neg (Ne.symm h.1), ih h.2]

/-- What is found is a member. -/
theorem mem_of_member? {ms : Members} {k : String} {v : Json} (h : member? ms k = some v) :
    (k, v) ∈ ms := by
  induction ms with
  | nil => simp at h
  | cons a ms ih =>
    obtain ⟨k', v'⟩ := a
    rw [member?_cons] at h
    split at h
    · cases h
      subst_vars
      exact List.mem_cons_self
    · exact List.mem_cons_of_mem _ (ih h)

/-- With distinct names, the member at a position is the one found by its name. -/
theorem member?_of_getElem? {ms : Members} (hn : (ms.map Prod.fst).Nodup) {i : ℕ} {k : String}
    {v : Json} (h : ms[i]? = some (k, v)) : member? ms k = some v := by
  induction ms generalizing i with
  | nil => simp at h
  | cons a ms ih =>
    obtain ⟨k', v'⟩ := a
    rw [List.map_cons, List.nodup_cons] at hn
    cases i with
    | zero =>
      simp only [List.getElem?_cons_zero, Option.some.injEq, Prod.mk.injEq] at h
      rw [member?_cons, if_pos h.1, h.2]
    | succ i =>
      rw [List.getElem?_cons_succ] at h
      have hk : k ∈ ms.map Prod.fst := List.mem_map.mpr ⟨_, List.mem_of_getElem? h, rfl⟩
      rw [member?_cons, if_neg fun heq => hn.1 (by rw [heq]; exact hk), ih hn.2 h]

/-- Among distinct names, a lookup finds exactly the members. -/
theorem member?_eq_some_iff {ms : Members} (hn : (ms.map Prod.fst).Nodup) {k : String} {v : Json} :
    member? ms k = some v ↔ (k, v) ∈ ms := by
  refine ⟨mem_of_member?, fun h => ?_⟩
  obtain ⟨i, hi⟩ := List.mem_iff_getElem?.mp h
  exact member?_of_getElem? hn hi

/-- The order of distinct names does not matter to a lookup. -/
theorem member?_of_perm {as bs : Members} (h : as.Perm bs) (hn : (bs.map Prod.fst).Nodup)
    (k : String) : member? as k = member? bs k := by
  have hn' : (as.map Prod.fst).Nodup := (h.map Prod.fst).nodup_iff.mpr hn
  refine Option.ext fun v => ?_
  rw [member?_eq_some_iff hn', member?_eq_some_iff hn, h.mem_iff]

/-- A new name is inserted last. -/
theorem setMember_eq_append {ms : Members} {k : String} {v : Json} (h : k ∉ ms.map Prod.fst) :
    setMember ms k v = ms ++ [(k, v)] := by
  induction ms with
  | nil => rfl
  | cons a ms ih =>
    obtain ⟨k', v'⟩ := a
    simp only [List.map_cons, List.mem_cons, not_or] at h
    rw [setMember, if_neg (Ne.symm h.1), ih h.2, List.cons_append]

/-- Inserting members with new, distinct names one after the other appends them. -/
theorem foldl_setMember_eq_append {root ms : Members}
    (h : ((root ++ ms).map Prod.fst).Nodup) :
    ms.foldl (fun acc kv => setMember acc kv.1 kv.2) root = root ++ ms := by
  induction ms generalizing root with
  | nil => simp
  | cons a ms ih =>
    obtain ⟨k, v⟩ := a
    have hk : k ∉ root.map Prod.fst := by
      rw [List.map_append, List.nodup_append] at h
      intro hmem
      exact h.2.2 k hmem k (by simp) rfl
    rw [List.foldl_cons, setMember_eq_append hk, ih (by simpa using h)]
    simp

/-! ## Reading a value -/

namespace Json

/-- The C string of a string value. -/
def string? : Json → Option Bytes
  | .str s => some (cstr s)
  | _ => none

/-- The value of an integer. -/
def int? : Json → Option ℤ
  | .int n => some n
  | _ => none

/-- The members of an object. -/
def members? : Json → Option Members
  | .obj ms => some ms
  | _ => none

/-- The items of an array. -/
def items? : Json → Option (List Json)
  | .arr xs => some xs
  | _ => none

/-- The literal `true`. -/
def isTrue : Json → Bool
  | .bool b => b
  | _ => false

/-- The literal `null`. -/
def isNull : Json → Bool
  | .null => true
  | _ => false

end Json

/-- A string value from a C string; only UTF-8 has one. -/
def jsonString (s : Bytes) : Option Json :=
  if utf8Ok (cstr s) = true then some (.str (cstr s)) else none

/-- The string value is the whole C string, which is UTF-8. -/
theorem jsonString_eq_some {s : Bytes} {v : Json} (h : jsonString s = some v) :
    v = .str (cstr s) ∧ utf8Ok (cstr s) = true := by
  unfold jsonString at h
  split at h
  · cases h
    exact ⟨rfl, ‹_›⟩
  · cases h

/-- The string value of what a buffer holds. -/
theorem jsonString_buf {cap : ℕ} (b : Buf cap) :
    jsonString b.bytes = if utf8Ok b.bytes = true then some (.str b.bytes) else none := by
  rw [jsonString, cstr_eq_self b.nul_free]

/-- The string value of a decimal number. -/
@[simp] theorem jsonString_decimal (n : ℕ) : jsonString (decimal n) = some (.str (decimal n)) := by
  rw [jsonString, cstr_eq_self (nul_notMem_decimal n), if_pos (utf8Ok_decimal n)]

/-! ## Depth and well-formedness -/

mutual

/-- Container nesting depth: zero for a scalar. -/
def Json.depth : Json → ℕ
  | .arr xs => depthItems xs + 1
  | .obj ms => depthMembers ms + 1
  | _ => 0

/-- The greatest depth of a list of items. -/
def depthItems : List Json → ℕ
  | [] => 0
  | x :: xs => max x.depth (depthItems xs)

/-- The greatest depth of the members of an object. -/
def depthMembers : List (String × Json) → ℕ
  | [] => 0
  | (_, x) :: ms => max x.depth (depthMembers ms)

end

/-- A string a loader can return: UTF-8 without a zero octet. -/
def textOk (s : Bytes) : Bool := utf8Ok s && !s.contains 0

mutual

/-- The values a loader can return. -/
def Json.wf : Json → Bool
  | .int n => decide (-(2 ^ 63) ≤ n ∧ n < 2 ^ 63)
  | .real bits => (bits >>> 52) &&& 0x7FF != 0x7FF
  | .str s => textOk s
  | .arr xs => wfItems xs
  | .obj ms => decide (ms.map Prod.fst).Nodup && wfMembers ms
  | _ => true

/-- Every item is well formed. -/
def wfItems : List Json → Bool
  | [] => true
  | x :: xs => x.wf && wfItems xs

/-- Every member is well formed. -/
def wfMembers : List (String × Json) → Bool
  | [] => true
  | (k, x) :: ms => textOk (lit k) && x.wf && wfMembers ms

end

/-- The octets of a well-formed string. -/
theorem textOk_iff {s : Bytes} : textOk s = true ↔ utf8Ok s = true ∧ (0 : UInt8) ∉ s := by
  simp [textOk]

/-- Items are well formed one by one. -/
theorem wfItems_iff {xs : List Json} : wfItems xs = true ↔ ∀ x ∈ xs, x.wf = true := by
  induction xs with
  | nil => simp [wfItems]
  | cons x xs ih => simp [wfItems, ih]

/-- Members are well formed one by one. -/
theorem wfMembers_iff {ms : Members} :
    wfMembers ms = true ↔ ∀ kv ∈ ms, textOk (lit kv.1) = true ∧ kv.2.wf = true := by
  induction ms with
  | nil => simp [wfMembers]
  | cons a ms ih =>
    obtain ⟨k, v⟩ := a
    simp [wfMembers, ih]

/-- Members are well formed when their names and their values are. -/
theorem wfMembers_iff_names {ms : Members} :
    wfMembers ms = true ↔
      (∀ k ∈ ms.map Prod.fst, textOk (lit k) = true) ∧ ∀ v ∈ ms.map Prod.snd, v.wf = true := by
  simp only [wfMembers_iff, List.forall_mem_map, ← forall_and]

/-- Well-formed members of two objects. -/
@[simp] theorem wfMembers_append (as bs : Members) :
    wfMembers (as ++ bs) = (wfMembers as && wfMembers bs) := by
  rw [Bool.eq_iff_iff, Bool.and_eq_true]
  simp only [wfMembers_iff, List.mem_append]
  constructor
  · intro h
    exact ⟨fun kv hkv => h kv (Or.inl hkv), fun kv hkv => h kv (Or.inr hkv)⟩
  · rintro ⟨h1, h2⟩ kv (hkv | hkv)
    · exact h1 kv hkv
    · exact h2 kv hkv

/-- A well-formed object: distinct names and well-formed members. -/
theorem wf_obj_iff {ms : Members} :
    (Json.obj ms).wf = true ↔ (ms.map Prod.fst).Nodup ∧ wfMembers ms = true := by
  simp [Json.wf]

/-- An object whose names are among known ones is well formed when its values are. -/
theorem wf_obj_of_names {ms : Members} (names : List String) (hms : (ms.map Prod.fst).Sublist names)
    (hnames : names.Nodup ∧ ∀ k ∈ names, textOk (lit k) = true)
    (hvals : ∀ v ∈ ms.map Prod.snd, v.wf = true) : (Json.obj ms).wf = true :=
  wf_obj_iff.mpr ⟨hms.nodup hnames.1,
    wfMembers_iff_names.mpr ⟨fun k hk => hnames.2 k (hms.subset hk), hvals⟩⟩

/-- A member of a well-formed object is well formed. -/
theorem wf_of_member? {ms : Members} (h : wfMembers ms = true) {k : String} {v : Json}
    (hv : member? ms k = some v) : v.wf = true :=
  (wfMembers_iff.mp h _ (mem_of_member? hv)).2

/-- A string value made from a C string is well formed. -/
theorem wf_of_jsonString {s : Bytes} {v : Json} (h : jsonString s = some v) : v.wf = true := by
  unfold jsonString at h
  split at h
  · cases h
    simpa [Json.wf, textOk] using ⟨‹_›, nul_notMem_cstr s⟩
  · cases h

/-- The string of a well-formed value is UTF-8, and its C string is the whole of it. -/
theorem utf8Ok_of_string? {v : Json} (hwf : v.wf = true) {s : Bytes} (h : v.string? = some s) :
    utf8Ok s = true ∧ v = .str s := by
  cases v <;> simp only [Json.string?, reduceCtorEq, Option.some.injEq] at h
  case str t =>
    obtain ⟨hu, hn⟩ := textOk_iff.mp hwf
    rw [cstr_eq_self hn] at h
    subst h
    exact ⟨hu, rfl⟩

/-- The depth of a member is at most the depth of the members. -/
theorem depth_le_of_mem {ms : Members} {kv : String × Json} (h : kv ∈ ms) :
    kv.2.depth ≤ depthMembers ms := by
  induction ms with
  | nil => simp at h
  | cons a ms ih =>
    obtain ⟨k, v⟩ := a
    rw [depthMembers]
    rcases List.mem_cons.mp h with rfl | h
    · exact le_max_left _ _
    · exact le_trans (ih h) (le_max_right _ _)

theorem depthMembers_of_perm {as bs : Members} (h : as.Perm bs) :
    depthMembers as = depthMembers bs := by
  induction h with
  | nil => simp
  | cons x _ ih => simp [depthMembers, ih]
  | swap x y ms => simp [depthMembers, max_left_comm]
  | trans _ _ ih₁ ih₂ => exact ih₁.trans ih₂

/-- The depth of the members of two objects. -/
@[simp] theorem depthMembers_append (as bs : Members) :
    depthMembers (as ++ bs) = max (depthMembers as) (depthMembers bs) := by
  induction as with
  | nil => simp [depthMembers]
  | cons a as ih =>
    obtain ⟨k, v⟩ := a
    simp [depthMembers, ih, max_assoc]

/-! ## The library interface -/

/-- Container depth up to which a JSON library reads. -/
def maxLoadDepth : ℕ := 2048

/-- What a program relies on of its JSON library: a compact writer of objects and a reader that
rejects duplicate names. -/
structure JsonCodec where
  /-- The compact text of a value. -/
  dumps : Json → Bytes
  /-- The value of a text, if it is one JSON object or array without duplicate names. -/
  loadb : Bytes → Option Json
  /-- Loading the text of an object gives back the object. -/
  loadb_dumps : ∀ ms : Members, (Json.obj ms).wf = true → (Json.obj ms).depth ≤ maxLoadDepth →
    loadb (dumps (.obj ms)) = some (.obj ms)
  /-- What is loaded is well formed. -/
  loadb_wf : ∀ s v, loadb s = some v → v.wf = true
  /-- The compact text of an object is not empty. -/
  dumps_ne_nil : ∀ ms : Members, dumps (.obj ms) ≠ []
  /-- The compact text is one line: control characters are escaped. -/
  newline_notMem_dumps : ∀ v, (10 : UInt8) ∉ dumps v

end Foundation
