import AuditBroker.Foundation.Json

/-!
# A compact JSON text

A writer of JSON values without white space and a reader for it, which together make up a concrete
`JsonCodec`.  Strings are written as a C JSON library writes them: quotes, backslashes and control
characters are escaped, everything else stands as it is.  A real number is written with the digits
of its bit pattern and the exponent `e0`, so that it is a JSON number and is read back without
rounding.

The reader takes fuel; the length of the text is enough (`readValue_writeJson`).
-/

namespace Foundation

/-! ## Strings -/

/-- An uppercase hexadecimal digit. -/
def upperHex (n : UInt8) : UInt8 := if n < 10 then 48 + n else 55 + n

/-- An octet of a string between its quotes. -/
def escapeChar (c : UInt8) : Bytes :=
  if c = 34 ∨ c = 92 then [92, c]
  else if 32 ≤ c then [c]
  else if c = 8 then lit "\\b"
  else if c = 9 then lit "\\t"
  else if c = 10 then lit "\\n"
  else if c = 12 then lit "\\f"
  else if c = 13 then lit "\\r"
  else lit "\\u00" ++ [upperHex (c >>> 4), upperHex (c &&& 15)]

/-- A string with its quotes. -/
def writeString (s : Bytes) : Bytes := 34 :: (s.flatMap escapeChar ++ [34])

/-- The value of a hexadecimal digit, of either case. -/
def anyHexVal (c : UInt8) : Option UInt8 :=
  if 65 ≤ c ∧ c ≤ 70 then some (c - 55) else hexVal c

/-- The octet of an escape sequence, after its backslash.  Of the four-digit sequences only those of
ASCII characters are known. -/
def readEscape : Bytes → Option (UInt8 × Bytes)
  | [] => none
  | c :: r =>
    if c = 34 ∨ c = 92 ∨ c = 47 then some (c, r)
    else if c = 98 then some (8, r)
    else if c = 116 then some (9, r)
    else if c = 110 then some (10, r)
    else if c = 102 then some (12, r)
    else if c = 114 then some (13, r)
    else if c = 117 then
      match r with
      | 48 :: 48 :: hi :: lo :: r =>
        match anyHexVal hi, anyHexVal lo with
        | some h, some l => if h < 8 then some (h <<< 4 ||| l, r) else none
        | _, _ => none
      | _ => none
    else none

/-- The rest of a string after its opening quote, and what follows the closing one. -/
def readString : ℕ → Bytes → Option (Bytes × Bytes)
  | 0, _ => none
  | _ + 1, [] => none
  | f + 1, c :: r =>
    if c = 34 then some ([], r)
    else if c = 92 then
      match readEscape r with
      | none => none
      | some (c', r') => (readString f r').map fun p => (c' :: p.1, p.2)
    else if c < 32 then none
    else (readString f r).map fun p => (c :: p.1, p.2)

/-- An escaped octet starts with a backslash, and the rest of it is read back; another octet stands
for itself. -/
theorem escapeChar_cases (c : UInt8) :
    (escapeChar c = [c] ∧ c ≠ 34 ∧ c ≠ 92 ∧ ¬c < 32) ∨
      ∃ e, escapeChar c = 92 :: e ∧ ∀ r, readEscape (e ++ r) = some (c, r) := by
  by_cases hplain : escapeChar c = [c] ∧ c ≠ 34 ∧ c ≠ 92 ∧ ¬c < 32
  · exact Or.inl hplain
  · right
    -- the octets with an escape sequence are known one by one
    have hmem : c = 34 ∨ c = 92 ∨ c < 32 := by
      by_contra hno
      simp only [not_or] at hno
      have hle : (32 : UInt8) ≤ c := UInt8.not_lt.mp hno.2.2
      exact hplain ⟨by simp [escapeChar, hno.1, hno.2.1, hle], hno.1, hno.2.1, hno.2.2⟩
    rcases hmem with rfl | rfl | hlt
    · exact ⟨[34], rfl, fun r => rfl⟩
    · exact ⟨[92], rfl, fun r => rfl⟩
    · obtain ⟨n, hn, rfl⟩ : ∃ n, n < 32 ∧ UInt8.ofNat n = c :=
        ⟨c.toNat, UInt8.lt_iff_toNat_lt.mp hlt, by simp⟩
      interval_cases n
      all_goals exact ⟨_, rfl, fun r => rfl⟩

/-- A written string is read back. -/
theorem readString_writeString (s r : Bytes) {f : ℕ} (hf : s.length < f) :
    readString f (s.flatMap escapeChar ++ 34 :: r) = some (s, r) := by
  induction s generalizing f with
  | nil =>
    obtain ⟨f, rfl⟩ : ∃ k, f = k + 1 := ⟨f - 1, by simp at hf; omega⟩
    rfl
  | cons c s ih =>
    obtain ⟨f, rfl⟩ : ∃ k, f = k + 1 := ⟨f - 1, by simp at hf; omega⟩
    have hrest := ih (f := f) (by simpa using hf)
    rw [List.flatMap_cons, List.append_assoc]
    rcases escapeChar_cases c with ⟨hc, h34, h92, h32⟩ | ⟨e, hc, he⟩
    · rw [hc, List.singleton_append, readString, if_neg h34, if_neg h92, if_neg h32, hrest]
      rfl
    · rw [hc, List.cons_append, readString, if_neg (by decide), if_pos rfl, he]
      simp only [hrest, Option.map_some]

/-- A written string is one line. -/
theorem newline_notMem_writeString (s : Bytes) : (10 : UInt8) ∉ writeString s := by
  have hchar : ∀ c : UInt8, (10 : UInt8) ∉ escapeChar c :=
    forall_octet (p := fun c => (10 : UInt8) ∉ escapeChar c) (by decide +kernel)
  simp only [writeString, List.mem_cons, List.mem_append, List.mem_flatMap, not_or, not_exists,
    not_and, List.not_mem_nil, not_false_eq_true, and_true]
  exact ⟨by decide, fun c _ => hchar c, by decide⟩

/-! ## Names -/

/-- The text of some octets.  Names are ASCII as a rule, which is tried first. -/
def nameOf (s : Bytes) : Option String :=
  let ascii := String.ofList (s.map fun c => Char.ofNat c.toNat)
  if lit ascii = s then some ascii else String.fromUTF8? ⟨s.toArray⟩

theorem nameOf_lit (k : String) : nameOf (lit k) = some k := by
  unfold nameOf
  simp only
  split
  · rename_i h
    rw [lit_inj.mp h]
  · have hbytes : (⟨(lit k).toArray⟩ : ByteArray) = k.toByteArray := by simp [lit]
    rw [hbytes, String.fromUTF8?, dif_pos k.isValidUTF8]
    rfl

/-! ## Numbers -/

/-- A number with its sign. -/
def writeInt : ℤ → Bytes
  | .ofNat n => decimal n
  | .negSucc n => 45 :: decimal (n + 1)

/-- An integer, or a real number if an exponent follows the digits. -/
def readNumber (s : Bytes) : Option (Json × Bytes) :=
  match s with
  | [] => none
  | c :: r =>
    if c = 45 then
      if r.takeWhile isDigit = [] then none
      else some (.int (-(decimalValue (r.takeWhile isDigit) : ℤ)), r.dropWhile isDigit)
    else if s.takeWhile isDigit = [] then none
    else
      match s.dropWhile isDigit with
      | 101 :: 48 :: r => some (.real (UInt64.ofNat (decimalValue (s.takeWhile isDigit))), r)
      | r => some (.int (decimalValue (s.takeWhile isDigit)), r)

/-- What may follow a value: the end, a comma or a closing bracket. -/
def Stops (r : Bytes) : Prop := ∀ c ∈ r.head?, c = 44 ∨ c = 93 ∨ c = 125

/-- The digits of a number end where another character follows. -/
theorem takeWhile_decimal (n : ℕ) {r : Bytes} (hr : ∀ c ∈ r.head?, isDigit c = false) :
    (decimal n ++ r).takeWhile isDigit = decimal n ∧
      (decimal n ++ r).dropWhile isDigit = r := by
  have hall : ∀ c ∈ decimal n, isDigit c = true := fun c hc => isDigit_of_mem_decimal hc
  rw [List.takeWhile_append_of_pos hall, List.dropWhile_append_of_pos hall]
  cases r with
  | nil => simp
  | cons c r =>
    have hc : isDigit c = false := hr c rfl
    simp [hc]

/-- The first character of a number is a digit. -/
theorem decimal_eq_cons (n : ℕ) : ∃ c l, decimal n = c :: l ∧ isDigit c = true := by
  cases h : decimal n with
  | nil => exact absurd h (decimal_ne_nil n)
  | cons c l => exact ⟨c, l, rfl, isDigit_of_mem_decimal (n := n) (by rw [h]; simp)⟩

theorem Stops.not_digit {r : Bytes} (h : Stops r) : ∀ c ∈ r.head?, isDigit c = false := by
  intro c hc
  rcases h c hc with rfl | rfl | rfl <;> decide

/-- A written integer is read back. -/
theorem readNumber_writeInt (n : ℤ) {r : Bytes} (hr : Stops r) :
    readNumber (writeInt n ++ r) = some (.int n, r) := by
  cases n with
  | ofNat n =>
    obtain ⟨htake, hdrop⟩ := takeWhile_decimal n hr.not_digit
    obtain ⟨c, l, hcl, hc⟩ := decimal_eq_cons n
    have hne : c ≠ 45 := by
      rintro rfl
      exact absurd hc (by decide)
    have hs : writeInt (.ofNat n) ++ r = c :: (l ++ r) := by rw [writeInt, hcl, List.cons_append]
    have hs' : c :: (l ++ r) = decimal n ++ r := by rw [hcl, List.cons_append]
    rw [hs, readNumber, if_neg hne, hs', htake, hdrop, if_neg (decimal_ne_nil n),
      decimalValue_decimal]
    split
    · rename_i h
      have := hr 101 (by simp)
      exact absurd this (by decide)
    · rfl
  | negSucc n =>
    obtain ⟨htake, hdrop⟩ := takeWhile_decimal (n + 1) hr.not_digit
    rw [writeInt, List.cons_append, readNumber, if_pos rfl, htake, hdrop,
      if_neg (decimal_ne_nil _), decimalValue_decimal, Int.negSucc_eq]
    simp

/-- A written real number is read back. -/
theorem readNumber_real (bits : UInt64) (r : Bytes) :
    readNumber (decimal bits.toNat ++ lit "e0" ++ r) = some (.real bits, r) := by
  have happ : decimal bits.toNat ++ lit "e0" ++ r = decimal bits.toNat ++ (101 :: 48 :: r) := by
    rw [List.append_assoc]
    rfl
  obtain ⟨htake, hdrop⟩ := takeWhile_decimal bits.toNat (r := 101 :: 48 :: r) (by simp; decide)
  obtain ⟨c, l, hcl, hc⟩ := decimal_eq_cons bits.toNat
  have hne : c ≠ 45 := by
    rintro rfl
    exact absurd hc (by decide)
  have hs : decimal bits.toNat ++ (101 :: 48 :: r) = c :: (l ++ (101 :: 48 :: r)) := by
    rw [hcl, List.cons_append]
  rw [happ, hs, readNumber, if_neg hne, ← hs, htake, hdrop, if_neg (decimal_ne_nil _),
    decimalValue_decimal]
  simp

/-! ## Values -/

/-- Does the text start with these octets?  What follows them. -/
def skip : Bytes → Bytes → Option Bytes
  | [], s => some s
  | _ :: _, [] => none
  | p :: ps, c :: s => if p = c then skip ps s else none

mutual

/-- The compact text of a value. -/
def writeJson : Json → Bytes
  | .null => lit "null"
  | .bool true => lit "true"
  | .bool false => lit "false"
  | .int n => writeInt n
  | .real bits => decimal bits.toNat ++ lit "e0"
  | .str s => writeString s
  | .arr xs => 91 :: writeItems xs
  | .obj ms => 123 :: writeMembers ms

/-- The items of an array and its closing bracket. -/
def writeItems : List Json → Bytes
  | [] => [93]
  | x :: xs => writeJson x ++ writeMoreItems xs

/-- The further items of an array and its closing bracket. -/
def writeMoreItems : List Json → Bytes
  | [] => [93]
  | x :: xs => 44 :: (writeJson x ++ writeMoreItems xs)

/-- The members of an object and its closing brace. -/
def writeMembers : List (String × Json) → Bytes
  | [] => [125]
  | (k, x) :: ms => writeString (lit k) ++ (58 :: (writeJson x ++ writeMoreMembers ms))

/-- The further members of an object and its closing brace. -/
def writeMoreMembers : List (String × Json) → Bytes
  | [] => [125]
  | (k, x) :: ms => 44 :: (writeString (lit k) ++ (58 :: (writeJson x ++ writeMoreMembers ms)))

end

mutual

/-- The value at the beginning of a text, and what follows it. -/
def readValue : ℕ → Bytes → Option (Json × Bytes)
  | 0, _ => none
  | _ + 1, [] => none
  | f + 1, c :: r =>
    if c = 34 then (readString f r).map fun p => (.str p.1, p.2)
    else if c = 91 then
      match skip [93] r with
      | some r => some (.arr [], r)
      | none => (readItems f r).map fun p => (.arr p.1, p.2)
    else if c = 123 then
      match skip [125] r with
      | some r => some (.obj [], r)
      | none => (readMembers f r).map fun p => (.obj p.1, p.2)
    else if c = 110 then (skip (lit "ull") r).map fun r => (.null, r)
    else if c = 116 then (skip (lit "rue") r).map fun r => (.bool true, r)
    else if c = 102 then (skip (lit "alse") r).map fun r => (.bool false, r)
    else readNumber (c :: r)

/-- The items of an array that is not empty. -/
def readItems : ℕ → Bytes → Option (List Json × Bytes)
  | 0, _ => none
  | f + 1, s =>
    match readValue f s with
    | some (x, 44 :: r) => (readItems f r).map fun p => (x :: p.1, p.2)
    | some (x, 93 :: r) => some ([x], r)
    | _ => none

/-- The members of an object that is not empty. -/
def readMembers : ℕ → Bytes → Option (List (String × Json) × Bytes)
  | 0, _ => none
  | f + 1, s =>
    match readMember f s with
    | some (kx, 44 :: r) => (readMembers f r).map fun p => (kx :: p.1, p.2)
    | some (kx, 125 :: r) => some ([kx], r)
    | _ => none

/-- One member of an object. -/
def readMember : ℕ → Bytes → Option ((String × Json) × Bytes)
  | 0, _ => none
  | _ + 1, [] => none
  | f + 1, c :: r =>
    if c = 34 then
      match readString f r with
      | some (k, 58 :: r) =>
        match nameOf k, readValue f r with
        | some k, some (x, r) => some ((k, x), r)
        | _, _ => none
      | _ => none
    else none

end

/-! ## What was written is read back -/

/-- The text of a value does not start like the end of an array. -/
theorem writeJson_eq_cons (v : Json) : ∃ c l, writeJson v = c :: l ∧ c ≠ 93 := by
  have hdigit : ∀ c : UInt8, isDigit c = true → c ≠ 93 := by
    rintro c hc rfl
    exact absurd hc (by decide)
  cases v with
  | null => exact ⟨_, _, rfl, by decide⟩
  | bool b => cases b <;> exact ⟨_, _, rfl, by decide⟩
  | int n =>
    cases n with
    | ofNat n =>
      obtain ⟨c, l, hcl, hc⟩ := decimal_eq_cons n
      exact ⟨c, l, by rw [writeJson, writeInt, hcl], hdigit c hc⟩
    | negSucc n => exact ⟨_, _, rfl, by decide⟩
  | real bits =>
    obtain ⟨c, l, hcl, hc⟩ := decimal_eq_cons bits.toNat
    exact ⟨c, _, by rw [writeJson, hcl, List.cons_append], hdigit c hc⟩
  | str s => exact ⟨_, _, rfl, by decide⟩
  | arr xs => exact ⟨_, _, by rw [writeJson], by decide⟩
  | obj ms => exact ⟨_, _, by rw [writeJson], by decide⟩

/-- Further items are items after a comma. -/
theorem writeMoreItems_cons (x : Json) (xs : List Json) :
    writeMoreItems (x :: xs) = 44 :: writeItems (x :: xs) := by
  rw [writeMoreItems, writeItems]

/-- Further members are members after a comma. -/
theorem writeMoreMembers_cons (kx : String × Json) (ms : Members) :
    writeMoreMembers (kx :: ms) = 44 :: writeMembers (kx :: ms) := by
  rw [writeMoreMembers, writeMembers]

theorem stops_writeMoreItems (xs : List Json) (r : Bytes) : Stops (writeMoreItems xs ++ r) := by
  intro c hc
  cases xs with
  | nil => simp_all [writeMoreItems]
  | cons x xs => simp_all [writeMoreItems]

theorem stops_writeMoreMembers (ms : Members) (r : Bytes) : Stops (writeMoreMembers ms ++ r) := by
  intro c hc
  cases ms with
  | nil => simp_all [writeMoreMembers]
  | cons kx ms => simp_all [writeMoreMembers]

theorem length_lt_writeString (s : Bytes) : s.length + 1 < (writeString s).length := by
  have hchar : ∀ c : UInt8, 1 ≤ (escapeChar c).length :=
    forall_octet (p := fun c => 1 ≤ (escapeChar c).length) (by decide +kernel)
  have hflat : s.length ≤ (s.flatMap escapeChar).length := by
    induction s with
    | nil => simp
    | cons c s ih =>
      have := hchar c
      rw [List.flatMap_cons, List.length_append, List.length_cons]
      omega
  simp only [writeString, List.length_cons, List.length_append, List.length_nil]
  omega

/-- A value that is a number is read as a number. -/
theorem readValue_number {v : Json} {s r : Bytes} {c : UInt8} {l : Bytes} (hs : s = c :: l)
    (hc : isDigit c = true ∨ c = 45) (hn : readNumber s = some (v, r)) (f : ℕ) :
    readValue (f + 1) s = some (v, r) := by
  have hne : ∀ d : UInt8, isDigit d = false → d ≠ 45 → c ≠ d := by
    rintro d hd h45 rfl
    rcases hc with hc | hc
    · exact absurd hc (by simp [hd])
    · exact h45 hc
  subst hs
  rw [readValue, if_neg (hne 34 (by decide) (by decide)), if_neg (hne 91 (by decide) (by decide)),
    if_neg (hne 123 (by decide) (by decide)), if_neg (hne 110 (by decide) (by decide)),
    if_neg (hne 116 (by decide) (by decide)), if_neg (hne 102 (by decide) (by decide)), hn]

mutual

/-- The text of a value is read back, whatever follows it. -/
theorem readValue_writeJson (v : Json) {r : Bytes} (hr : Stops r) {f : ℕ}
    (hf : (writeJson v).length < f) : readValue f (writeJson v ++ r) = some (v, r) := by
  obtain ⟨f, rfl⟩ : ∃ k, f = k + 1 := ⟨f - 1, by omega⟩
  cases v with
  | null => rfl
  | bool b => cases b <;> rfl
  | int n =>
    have hn := readNumber_writeInt n hr
    cases n with
    | ofNat n =>
      obtain ⟨c, l, hcl, hc⟩ := decimal_eq_cons n
      refine readValue_number (l := l ++ r) ?_ (Or.inl hc) hn f
      rw [writeInt, hcl, List.cons_append]
    | negSucc n => exact readValue_number rfl (Or.inr rfl) hn f
  | real bits =>
    obtain ⟨c, l, hcl, hc⟩ := decimal_eq_cons bits.toNat
    refine readValue_number (l := l ++ lit "e0" ++ r) ?_ (Or.inl hc) (readNumber_real bits r) f
    rw [hcl, List.cons_append, List.cons_append]
  | str s =>
    have hlen := length_lt_writeString s
    rw [writeJson] at hf
    have hs := readString_writeString s r (f := f) (by omega)
    have htext : writeJson (.str s) ++ r = 34 :: (s.flatMap escapeChar ++ 34 :: r) := by
      simp [writeJson, writeString]
    rw [htext, readValue, if_pos rfl, hs]
    rfl
  | arr xs =>
    rw [writeJson, List.length_cons] at hf
    rw [writeJson, List.cons_append, readValue, if_neg (by decide), if_pos rfl]
    cases xs with
    | nil => rfl
    | cons x xs =>
      have hskip : skip [93] (writeItems (x :: xs) ++ r) = none := by
        obtain ⟨c, l, hcl, hc⟩ := writeJson_eq_cons x
        rw [writeItems, hcl]
        simp [skip, Ne.symm hc]
      rw [hskip]
      simp only [readItems_writeItems (x :: xs) (by simp) (r := r) (f := f) (by omega),
        Option.map_some]
  | obj ms =>
    rw [writeJson, List.length_cons] at hf
    rw [writeJson, List.cons_append, readValue, if_neg (by decide), if_neg (by decide), if_pos rfl]
    cases ms with
    | nil => rfl
    | cons kx ms =>
      have hskip : skip [125] (writeMembers (kx :: ms) ++ r) = none := by
        rw [writeMembers]
        simp [skip, writeString]
      rw [hskip]
      simp only [readMembers_writeMembers (kx :: ms) (by simp) (r := r) (f := f) (by omega),
        Option.map_some]

/-- The items of an array are read back. -/
theorem readItems_writeItems (xs : List Json) (hne : xs ≠ []) {r : Bytes} {f : ℕ}
    (hf : (writeItems xs).length < f) : readItems f (writeItems xs ++ r) = some (xs, r) := by
  obtain ⟨f, rfl⟩ : ∃ k, f = k + 1 := ⟨f - 1, by omega⟩
  cases xs with
  | nil => exact absurd rfl hne
  | cons x xs =>
    rw [writeItems, List.length_append] at hf
    have hx := readValue_writeJson x (stops_writeMoreItems xs r) (f := f)
    rw [writeItems, List.append_assoc, readItems]
    cases xs with
    | nil =>
      rw [hx (by simp [writeMoreItems] at hf; omega)]
      rfl
    | cons y ys =>
      rw [writeMoreItems_cons, List.length_cons] at hf
      rw [hx (by omega), writeMoreItems_cons, List.cons_append]
      simp only [readItems_writeItems (y :: ys) (by simp) (r := r) (f := f) (by omega),
        Option.map_some]

/-- The members of an object are read back. -/
theorem readMembers_writeMembers (ms : List (String × Json)) (hne : ms ≠ []) {r : Bytes} {f : ℕ}
    (hf : (writeMembers ms).length < f) :
    readMembers f (writeMembers ms ++ r) = some (ms, r) := by
  obtain ⟨f, rfl⟩ : ∃ k, f = k + 1 := ⟨f - 1, by omega⟩
  cases ms with
  | nil => exact absurd rfl hne
  | cons kx ms =>
    obtain ⟨k, x⟩ := kx
    have hlen := length_lt_writeString (lit k)
    simp only [writeMembers, List.length_append, List.length_cons] at hf
    -- the member itself, whatever follows it
    have hmember : readMember f (writeMembers ((k, x) :: ms) ++ r) =
        some ((k, x), writeMoreMembers ms ++ r) := by
      obtain ⟨f, rfl⟩ : ∃ j, f = j + 1 := ⟨f - 1, by omega⟩
      have hkey := readString_writeString (lit k)
        (58 :: (writeJson x ++ (writeMoreMembers ms ++ r))) (f := f) (by omega)
      have hx := readValue_writeJson x (stops_writeMoreMembers ms r) (f := f) (by omega)
      have htext : writeMembers ((k, x) :: ms) ++ r = 34 :: ((lit k).flatMap escapeChar ++
          34 :: 58 :: (writeJson x ++ (writeMoreMembers ms ++ r))) := by
        simp [writeMembers, writeString]
      rw [htext, readMember, if_pos rfl, hkey]
      simp only [nameOf_lit, hx]
    rw [readMembers, hmember]
    cases ms with
    | nil => rfl
    | cons kx' ms =>
      rw [writeMoreMembers_cons, List.length_cons] at hf
      rw [writeMoreMembers_cons, List.cons_append]
      simp only [readMembers_writeMembers (kx' :: ms) (by simp) (r := r) (f := f) (by omega),
        Option.map_some]

end

/-! ## One line -/

theorem newline_notMem_decimal (n : ℕ) : (10 : UInt8) ∉ decimal n := by
  intro h
  exact absurd (isDigit_of_mem_decimal h) (by decide)

mutual

/-- The text of a value is one line. -/
theorem newline_notMem_writeJson (v : Json) : (10 : UInt8) ∉ writeJson v := by
  cases v with
  | null => decide
  | bool b => cases b <;> decide
  | int n =>
    cases n with
    | ofNat n => exact newline_notMem_decimal n
    | negSucc n =>
      rw [writeJson, writeInt, List.mem_cons, not_or]
      exact ⟨by decide, newline_notMem_decimal _⟩
  | real bits =>
    rw [writeJson, List.mem_append, not_or]
    exact ⟨newline_notMem_decimal _, by decide⟩
  | str s => exact newline_notMem_writeString s
  | arr xs =>
    rw [writeJson, List.mem_cons, not_or]
    exact ⟨by decide, newline_notMem_writeItems xs⟩
  | obj ms =>
    rw [writeJson, List.mem_cons, not_or]
    exact ⟨by decide, newline_notMem_writeMembers ms⟩

theorem newline_notMem_writeItems (xs : List Json) : (10 : UInt8) ∉ writeItems xs := by
  cases xs with
  | nil => simp [writeItems]
  | cons x xs =>
    rw [writeItems, List.mem_append, not_or]
    refine ⟨newline_notMem_writeJson x, ?_⟩
    cases xs with
    | nil => simp [writeMoreItems]
    | cons y ys =>
      rw [writeMoreItems_cons, List.mem_cons, not_or]
      exact ⟨by decide, newline_notMem_writeItems (y :: ys)⟩

theorem newline_notMem_writeMembers (ms : List (String × Json)) :
    (10 : UInt8) ∉ writeMembers ms := by
  cases ms with
  | nil => simp [writeMembers]
  | cons kx ms =>
    obtain ⟨k, x⟩ := kx
    simp only [writeMembers, List.mem_append, List.mem_cons, not_or]
    refine ⟨newline_notMem_writeString _, by decide, newline_notMem_writeJson x, ?_⟩
    cases ms with
    | nil => simp [writeMoreMembers]
    | cons kx' ms =>
      rw [writeMoreMembers_cons, List.mem_cons, not_or]
      exact ⟨by decide, newline_notMem_writeMembers (kx' :: ms)⟩

end

/-! ## The codec -/

/-- Arrays and objects. -/
def Json.isContainer : Json → Bool
  | .arr _ => true
  | .obj _ => true
  | _ => false

/-- The value of a whole text: an array or an object that is well formed and not too deep. -/
def loadText (s : Bytes) : Option Json :=
  match readValue (s.length + 1) s with
  | some (v, []) =>
    if v.isContainer = true ∧ v.depth ≤ maxLoadDepth ∧ v.wf = true then some v else none
  | _ => none

/-- The compact JSON text and its reader. -/
def jsonText : JsonCodec where
  dumps := writeJson
  loadb := loadText
  loadb_dumps := by
    intro ms hwf hdepth
    have hread : readValue ((writeJson (.obj ms)).length + 1) (writeJson (.obj ms)) =
        some (.obj ms, []) := by
      have h := readValue_writeJson (.obj ms) (r := []) (by simp [Stops]) (Nat.lt_succ_self _)
      rwa [List.append_nil] at h
    rw [loadText, hread]
    simp only [hwf, hdepth, Json.isContainer, and_true, if_true]
  loadb_wf := by
    intro s v h
    unfold loadText at h
    split at h
    · split at h
      · rename_i hv
        cases h
        exact hv.2.2
      · cases h
    · cases h
  dumps_ne_nil := by
    intro ms
    rw [writeJson]
    simp
  newline_notMem_dumps := newline_notMem_writeJson

end Foundation
