import Mathlib.Data.Nat.Digits.Lemmas
import Mathlib.Data.List.TakeWhile
import Mathlib.Data.UInt

/-!
# C strings, fixed buffers and the textual forms of numbers

A C string is a list of octets without a zero octet; `cstr` is the part of a list of octets that a
C function sees.  `Buf cap` is the content of a `char[cap]` array that holds a C string: the octets
before the terminating zero, which fit and contain no zero themselves.  `Buf.snprintf` is the
truncating copy and `copyBounded` the copy that refuses what does not fit.

The second half has the three textual forms that fixed-width values take: unsigned decimal numbers
(`decimal`, with the strict reader `parseU64Strict`), lowercase hexadecimal (`toHex`) and UTF-8
(`utf8Ok`, the well-formedness check of RFC 3629).
-/

namespace Foundation

/-- Octets. -/
abbrev Bytes := List UInt8

/-- The octets of a string literal. -/
def lit (s : String) : Bytes := s.toByteArray.data.toList

/-- Distinct literals are distinct octet strings. -/
@[simp] theorem lit_inj {a b : String} : lit a = lit b ↔ a = b := by
  constructor
  · intro h
    have hdata : a.toByteArray.data = b.toByteArray.data := Array.toList_inj.mp h
    exact String.toByteArray_inj.mp (ByteArray.ext hdata)
  · rintro rfl
    rfl

/-! ## C strings -/

/-- What a C function sees of a list of octets: everything before the first zero octet. -/
def cstr (s : Bytes) : Bytes := s.takeWhile (· ≠ 0)

/-- A C string has no zero octet. -/
theorem nul_notMem_cstr (s : Bytes) : (0 : UInt8) ∉ cstr s := by
  intro h
  have := List.mem_takeWhile_imp h
  simp at this

/-- A list of octets without a zero is seen whole. -/
theorem cstr_eq_self {s : Bytes} (h : (0 : UInt8) ∉ s) : cstr s = s := by
  rw [cstr, List.takeWhile_eq_self_iff]
  intro c hc
  have hne : c ≠ 0 := fun h0 => h (h0 ▸ hc)
  simpa using hne

theorem cstr_append {a : Bytes} (ha : (0 : UInt8) ∉ a) (b : Bytes) :
    cstr (a ++ b) = a ++ cstr b := by
  unfold cstr
  rw [List.takeWhile_append_of_pos]
  intro c hc
  have hne : c ≠ 0 := fun h0 => ha (h0 ▸ hc)
  simpa using hne

@[simp] theorem cstr_cstr (s : Bytes) : cstr (cstr s) = cstr s :=
  cstr_eq_self (nul_notMem_cstr s)

/-- The content of a `char[cap]` array that holds a C string. -/
structure Buf (cap : ℕ) where
  /-- The octets before the terminating zero. -/
  bytes : Bytes
  /-- They leave room for the terminating zero. -/
  length_lt : bytes.length < cap
  /-- They contain no zero themselves. -/
  nul_free : (0 : UInt8) ∉ bytes

namespace Buf

variable {cap : ℕ}

/-- Two buffers with the same octets are equal. -/
@[ext] theorem ext {a b : Buf cap} (h : a.bytes = b.bytes) : a = b := by
  cases a
  cases b
  cases h
  rfl

/-- Equality of buffers is equality of their octets. -/
theorem ext_iff' {a b : Buf cap} : a = b ↔ a.bytes = b.bytes :=
  ⟨fun h => h ▸ rfl, ext⟩

instance : DecidableEq (Buf cap) := fun _ _ => decidable_of_iff _ ext_iff'.symm

/-- The empty string. -/
def empty (cap : ℕ) [NeZero cap] : Buf cap := ⟨[], Nat.pos_of_neZero cap, by simp⟩

@[simp] theorem empty_bytes [NeZero cap] : (empty cap).bytes = [] := rfl

/-- `snprintf(dst, cap, "%s", s)`: the longest initial part of the C string that fits. -/
def snprintf (cap : ℕ) [NeZero cap] (s : Bytes) : Buf cap where
  bytes := (cstr s).take (cap - 1)
  length_lt := by
    have := Nat.pos_of_neZero cap
    simp only [List.length_take]
    omega
  nul_free h := nul_notMem_cstr s (List.mem_of_mem_take h)

@[simp] theorem snprintf_bytes [NeZero cap] (s : Bytes) :
    (snprintf cap s).bytes = (cstr s).take (cap - 1) := rfl

/-- Only the C string matters for a copy. -/
@[simp] theorem snprintf_cstr [NeZero cap] (s : Bytes) : snprintf cap (cstr s) = snprintf cap s :=
  ext (by rw [snprintf_bytes, snprintf_bytes, cstr_cstr])

/-- What a buffer holds survives a copy into a buffer of the same size. -/
@[simp] theorem snprintf_bytes_self [NeZero cap] (b : Buf cap) : snprintf cap b.bytes = b := by
  apply ext
  rw [snprintf_bytes, cstr_eq_self b.nul_free, List.take_of_length_le]
  have := b.length_lt
  omega

end Buf

/-- Copy a C string into a `char[cap]` array, or fail when it would not fit. -/
def copyBounded (cap : ℕ) (s : Bytes) : Option (Buf cap) :=
  if h : (cstr s).length < cap then some ⟨cstr s, h, nul_notMem_cstr s⟩ else none

/-- What a buffer holds can be copied into a buffer of the same size. -/
@[simp] theorem copyBounded_bytes {cap : ℕ} (b : Buf cap) : copyBounded cap b.bytes = some b := by
  have hc : cstr b.bytes = b.bytes := cstr_eq_self b.nul_free
  rw [copyBounded, dif_pos (by rw [hc]; exact b.length_lt)]
  congr 1
  exact Buf.ext hc

/-- A bounded copy that succeeds holds the whole C string. -/
theorem bytes_of_copyBounded {cap : ℕ} {s : Bytes} {b : Buf cap} (h : copyBounded cap s = some b) :
    b.bytes = cstr s := by
  unfold copyBounded at h
  split at h
  · cases h
    rfl
  · cases h

/-- A bounded copy that succeeds agrees with the truncating one. -/
theorem snprintf_of_copyBounded {cap : ℕ} [NeZero cap] {s : Bytes} {b : Buf cap}
    (h : copyBounded cap s = some b) : Buf.snprintf cap s = b := by
  apply Buf.ext
  rw [Buf.snprintf_bytes, ← bytes_of_copyBounded h, List.take_of_length_le]
  have := b.length_lt
  omega

/-- A C string that fits is copied whole, as the truncating copy does. -/
theorem copyBounded_eq_snprintf {cap : ℕ} [NeZero cap] {s : Bytes} (h : (cstr s).length < cap) :
    copyBounded cap s = some (Buf.snprintf cap s) := by
  have hs : copyBounded cap s = some ⟨cstr s, h, nul_notMem_cstr s⟩ := dif_pos h
  rw [hs, snprintf_of_copyBounded hs]

/-- A C string that does not fit is refused. -/
theorem copyBounded_eq_none {cap : ℕ} {s : Bytes} (h : cap ≤ (cstr s).length) :
    copyBounded cap s = none := dif_neg (by omega)

/-! ## Decimal numbers -/

/-- A decimal digit character. -/
def isDigit (c : UInt8) : Bool := 48 ≤ c && c ≤ 57

/-- `%llu`: the decimal digits of a number, most significant first. -/
def decimal (n : ℕ) : Bytes :=
  if n = 0 then [48] else (Nat.digits 10 n).reverse.map fun d => UInt8.ofNat (48 + d)

/-- The number that a string of digit characters denotes. -/
def decimalValue (s : Bytes) : ℕ := s.foldl (fun acc c => 10 * acc + (c.toNat - 48)) 0

/-- `%0wllu`: decimal, padded with zeros to a width. -/
def padDecimal (width n : ℕ) : Bytes := List.replicate (width - (decimal n).length) 48 ++ decimal n

/-- Strict unsigned decimal: at least one character, digits only, below `2 ^ 64`. -/
def parseU64Strict (s : Bytes) : Option UInt64 :=
  if s ≠ [] ∧ s.all isDigit = true ∧ decimalValue s < 2 ^ 64 then
    some (UInt64.ofNat (decimalValue s))
  else none

/-- The character of a digit stands for that digit. -/
private theorem toNat_digitChar {d : ℕ} (h : d < 10) : (UInt8.ofNat (48 + d)).toNat = 48 + d := by
  rw [UInt8.toNat_ofNat']
  omega

/-- Every character of a decimal number is a digit character. -/
theorem isDigit_of_mem_decimal {n : ℕ} {c : UInt8} (h : c ∈ decimal n) : isDigit c = true := by
  unfold decimal at h
  split at h
  · rw [List.mem_singleton] at h
    subst h
    decide
  · obtain ⟨d, hd, rfl⟩ := List.mem_map.mp h
    have hlt : d < 10 := Nat.digits_lt_base (by norm_num) (List.mem_reverse.mp hd)
    simp only [isDigit, Bool.and_eq_true, decide_eq_true_eq, UInt8.le_iff_toNat_le,
      toNat_digitChar hlt]
    exact ⟨Nat.le_add_right 48 d, by change 48 + d ≤ 57; omega⟩

/-- A decimal number has at least one digit. -/
theorem decimal_ne_nil (n : ℕ) : decimal n ≠ [] := by
  unfold decimal
  split
  · simp
  · simpa [Nat.digits_eq_nil_iff_eq_zero] using ‹¬n = 0›

/-- A number below a power of ten has so many digits. -/
theorem length_decimal_le {n k : ℕ} (h : n < 10 ^ k) (hk : 0 < k) : (decimal n).length ≤ k := by
  unfold decimal
  split
  · exact hk
  · rw [List.length_map, List.length_reverse]
    exact (Nat.digits_length_le_iff (by norm_num) n).mpr h

/-- Reading the digits of a number gives the number. -/
theorem decimalValue_decimal (n : ℕ) : decimalValue (decimal n) = n := by
  unfold decimal
  split
  · subst_vars
    rfl
  · have hdigits : ∀ l : List ℕ, (∀ d ∈ l, d < 10) →
        decimalValue (l.reverse.map fun d => UInt8.ofNat (48 + d)) = Nat.ofDigits 10 l := by
      intro l hl
      induction l with
      | nil => rfl
      | cons d l ih =>
        have hd : d < 10 := hl d (by simp)
        have hrest := ih fun e he => hl e (by simp [he])
        unfold decimalValue at hrest ⊢
        rw [List.reverse_cons, List.map_append, List.foldl_append, hrest]
        simp only [List.map_cons, List.map_nil, List.foldl_cons, List.foldl_nil,
          toNat_digitChar hd, Nat.ofDigits_cons]
        omega
    rw [hdigits _ fun d hd => Nat.digits_lt_base (by norm_num) hd, Nat.ofDigits_digits]

/-- A 64-bit number is read back from its decimal form. -/
@[simp] theorem parseU64Strict_decimal (n : UInt64) : parseU64Strict (decimal n.toNat) = some n := by
  have hall : (decimal n.toNat).all isDigit = true :=
    List.all_eq_true.mpr fun c hc => isDigit_of_mem_decimal hc
  have hlt : decimalValue (decimal n.toNat) < 2 ^ 64 := by
    rw [decimalValue_decimal]
    exact n.toNat_lt
  rw [parseU64Strict, if_pos ⟨decimal_ne_nil _, hall, hlt⟩, decimalValue_decimal]
  simp

/-- A digit character is an ASCII character and not the zero octet. -/
theorem lt_of_isDigit {c : UInt8} (h : isDigit c = true) : c < 0x80 ∧ c ≠ 0 := by
  simp only [isDigit, Bool.and_eq_true, decide_eq_true_eq] at h
  obtain ⟨h1, h2⟩ := h
  rw [UInt8.le_iff_toNat_le] at h1 h2
  refine ⟨UInt8.lt_iff_toNat_lt.mpr ?_, ?_⟩
  · exact lt_of_le_of_lt h2 (by decide)
  · rintro rfl
    exact absurd h1 (by decide)

/-! ## Hexadecimal -/

/-- A lowercase hexadecimal digit character. -/
def isHexLc (c : UInt8) : Bool := (48 ≤ c && c ≤ 57) || (97 ≤ c && c ≤ 102)

/-- The lowercase hexadecimal digit of a number below 16. -/
def hexDigit (n : UInt8) : UInt8 := if n < 10 then 48 + n else 87 + n

/-- Two lowercase hexadecimal digits for each octet. -/
def toHex (s : Bytes) : Bytes :=
  s.flatMap fun b : UInt8 => [hexDigit (b >>> 4), hexDigit (b &&& 15)]

/-- The value of a lowercase hexadecimal digit. -/
def hexVal (c : UInt8) : Option UInt8 :=
  if 48 ≤ c ∧ c ≤ 57 then some (c - 48)
  else if 97 ≤ c ∧ c ≤ 102 then some (c - 87)
  else none

/-- Decode pairs of lowercase hexadecimal digits. -/
def fromHex : Bytes → Option Bytes
  | hi :: lo :: rest =>
    match hexVal hi, hexVal lo, fromHex rest with
    | some h, some l, some r => some ((h <<< 4 ||| l) :: r)
    | _, _, _ => none
  | [] => some []
  | _ => none

/-- Exactly `n` lowercase hexadecimal characters. -/
def isHexLcN (n : ℕ) (s : Bytes) : Bool := s.length == n && s.all isHexLc

@[simp] theorem length_toHex (s : Bytes) : (toHex s).length = 2 * s.length := by
  induction s with
  | nil => rfl
  | cons b s ih =>
    have : toHex (b :: s) = hexDigit (b >>> 4) :: hexDigit (b &&& 15) :: toHex s := rfl
    rw [this, List.length_cons, List.length_cons, ih, List.length_cons]
    omega

/-- A property of all octets can be checked octet by octet. -/
theorem forall_octet {p : UInt8 → Prop} (h : ∀ n < 256, p (UInt8.ofNat n)) (b : UInt8) :
    p b := by
  simpa using h b.toNat b.toNat_lt

/-- Both digits of an octet are hexadecimal characters. -/
theorem isHexLc_hexDigit (b : UInt8) :
    isHexLc (hexDigit (b >>> 4)) = true ∧ isHexLc (hexDigit (b &&& 15)) = true :=
  forall_octet (p := fun b => isHexLc (hexDigit (b >>> 4)) = true ∧
    isHexLc (hexDigit (b &&& 15)) = true) (by decide +kernel) b

/-- Every character of a hexadecimal string is a hexadecimal character. -/
theorem isHexLc_of_mem_toHex {s : Bytes} {c : UInt8} (h : c ∈ toHex s) : isHexLc c = true := by
  obtain ⟨b, -, hb⟩ := List.mem_flatMap.mp h
  rcases List.mem_pair.mp hb with rfl | rfl
  · exact (isHexLc_hexDigit b).1
  · exact (isHexLc_hexDigit b).2

/-- A hexadecimal character is an ASCII character and not the zero octet. -/
theorem lt_of_isHexLc {c : UInt8} (h : isHexLc c = true) : c < 0x80 ∧ c ≠ 0 :=
  forall_octet (p := fun c => isHexLc c = true → c < 0x80 ∧ c ≠ 0) (by decide +kernel) c h

/-- Decoding the digits of an octet. -/
theorem hexVal_hexDigit (b : UInt8) :
    hexVal (hexDigit (b >>> 4)) = some (b >>> 4) ∧ hexVal (hexDigit (b &&& 15)) = some (b &&& 15) ∧
      (b >>> 4) <<< 4 ||| (b &&& 15) = b :=
  forall_octet (p := fun b => hexVal (hexDigit (b >>> 4)) = some (b >>> 4) ∧
    hexVal (hexDigit (b &&& 15)) = some (b &&& 15) ∧ (b >>> 4) <<< 4 ||| (b &&& 15) = b)
    (by decide +kernel) b

/-- Decoding a hexadecimal string gives back the octets. -/
@[simp] theorem fromHex_toHex (s : Bytes) : fromHex (toHex s) = some s := by
  induction s with
  | nil => rfl
  | cons b s ih =>
    obtain ⟨hhi, hlo, hb⟩ := hexVal_hexDigit b
    have hcons : toHex (b :: s) = hexDigit (b >>> 4) :: hexDigit (b &&& 15) :: toHex s := rfl
    rw [hcons, fromHex, hhi, hlo, ih]
    simp only [hb]

theorem toHex_injective : Function.Injective toHex := by
  intro a b h
  have hdec := congrArg fromHex h
  simpa using hdec

/-! ## UTF-8 -/

/-- A continuation octet. -/
def isTail (c : UInt8) : Bool := 0x80 ≤ c && c ≤ 0xBF

/-- Well-formed UTF-8: no overlong forms, no surrogates, nothing above U+10FFFF. -/
def utf8Ok : Bytes → Bool
  | [] => true
  | a :: rest =>
    if a < 0x80 then utf8Ok rest
    else if 0xC2 ≤ a ∧ a ≤ 0xDF then
      match rest with
      | b :: r => isTail b && utf8Ok r
      | _ => false
    else if 0xE0 ≤ a ∧ a ≤ 0xEF then
      match rest with
      | b :: c :: r =>
        isTail b && isTail c && !(a == 0xE0 && b < 0xA0) && !(a == 0xED && 0x9F < b) && utf8Ok r
      | _ => false
    else if 0xF0 ≤ a ∧ a ≤ 0xF4 then
      match rest with
      | b :: c :: d :: r =>
        isTail b && isTail c && isTail d && !(a == 0xF0 && b < 0x90) && !(a == 0xF4 && 0x8F < b) &&
          utf8Ok r
      | _ => false
    else false

/-- ASCII text is well-formed UTF-8. -/
theorem utf8Ok_of_ascii {s : Bytes} (h : ∀ c ∈ s, c < 0x80) : utf8Ok s = true := by
  induction s with
  | nil => rfl
  | cons c s ih =>
    have hc : c < 0x80 := h c (by simp)
    rw [utf8Ok.eq_def]
    simp only [hc, if_true]
    exact ih fun d hd => h d (by simp [hd])

/-- A decimal number is well-formed UTF-8. -/
@[simp] theorem utf8Ok_decimal (n : ℕ) : utf8Ok (decimal n) = true :=
  utf8Ok_of_ascii fun _ hc => (lt_of_isDigit (isDigit_of_mem_decimal hc)).1

/-- A decimal number has no zero octet. -/
@[simp] theorem nul_notMem_decimal (n : ℕ) : (0 : UInt8) ∉ decimal n :=
  fun h => (lt_of_isDigit (isDigit_of_mem_decimal h)).2 rfl

/-- Lowercase hexadecimal characters are well-formed UTF-8. -/
theorem utf8Ok_of_isHexLc {s : Bytes} (h : s.all isHexLc = true) : utf8Ok s = true :=
  utf8Ok_of_ascii fun c hc => (lt_of_isHexLc (List.all_eq_true.mp h c hc)).1

end Foundation
