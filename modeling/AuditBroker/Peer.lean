import AuditBroker.RoundTrip

/-!
# Peer identity

`peer.c`: the identity of a peer is its credentials, the boot id and the start time of its process,
read from `/proc`.  A file is read in pieces that the kernel chooses, and a read may be interrupted;
`Read` is the result of one call.

The start time is the twentieth token after the last `)` of `/proc/<pid>/stat`.  The name of the
process stands before that parenthesis and is chosen by the process, so it may hold anything.  The
token loop does not move past a newline, but each turn counts a field, so it ends after twenty turns
(`exists_tokenLoop_eq`).
-/

namespace AuditBroker

open Foundation

/-! ## Small files -/

/-- The result of one `read`. -/
inductive Read where
  /-- `EINTR`. -/
  | interrupted
  /-- Another error. -/
  | failed
  /-- At most `n + 1` bytes, as many as there are. -/
  | upTo (n : ℕ)
  deriving DecidableEq, Repr

/-- The loop of `read_small` over a file, after `got` bytes.  Where the list of results ends, reads
are complete from then on. -/
def readLoop (buflen : ℕ) (file : Bytes) : List Read → ℕ → Option Bytes
  | [], _ => if file.length < buflen - 1 then some file else none
  | r :: rs, got =>
    if buflen - 1 ≤ got then none
    else
      match r with
      | .interrupted => readLoop buflen file rs got
      | .failed => none
      | .upTo n =>
        let k := min (n + 1) (min (buflen - 1 - got) (file.length - got))
        if k = 0 then some (file.take got) else readLoop buflen file rs (got + k)

/-- `read_small`: the whole file, if it is shorter than the buffer. -/
def readSmall (proc : Bytes → Option Bytes) (reads : List Read) (path : Bytes) (buflen : ℕ) :
    Option Bytes :=
  (proc path).bind fun file => readLoop buflen file reads 0

/-! ## Boot id -/

/-- Strip newlines and carriage returns from the end. -/
def stripLineEnd (raw : Bytes) : Bytes := (raw.reverse.dropWhile fun c => c = 10 ∨ c = 13).reverse

/-- `rab_boot_id`. -/
def rabBootId (proc : Bytes → Option Bytes) (reads : List Read) : Option (Buf bootIdMax) :=
  (readSmall proc reads (lit "/proc/sys/kernel/random/boot_id") 64).bind fun raw =>
    let id := stripLineEnd raw
    if id = [] ∨ bootIdMax ≤ id.length then none else copyBounded bootIdMax id

/-! ## Start time -/

/-- `strrchr(s, c)`: what follows the last `c`. -/
def afterLast (c : UInt8) (s : Bytes) : Option Bytes :=
  if c ∈ s then some (s.reverse.takeWhile (· ≠ c)).reverse else none

/-- The variables of the token loop. -/
structure Scan where
  /-- The string from `p` on. -/
  rest : Bytes
  field : ℕ
  /-- The last token. -/
  tok : Option Bytes

/-- A character of a token. -/
def inToken (c : UInt8) : Bool := c ≠ 32 && c ≠ 10

/-- One turn of the token loop, and whether there is another. -/
def Scan.turn (c : Scan) : Scan × Bool :=
  if c.rest = [] then (c, false)
  else
    let p := c.rest.dropWhile (· = 32)
    if p = [] then ({ c with rest := p }, false)
    else
      ({ rest := p.dropWhile inToken, field := c.field + 1, tok := some (p.takeWhile inToken) },
        c.field + 1 ≠ 22)

/-- The token loop, for a number of turns. -/
def tokenLoop : ℕ → Scan → Option Scan
  | 0, _ => none
  | k + 1, c =>
    match c.turn with
    | (c, false) => some c
    | (c, true) => tokenLoop k c

/-- The checks on the token that the loop ends with. -/
def startToken (buflen : ℕ) (c : Scan) : Option (Buf buflen) :=
  if c.field ≠ 22 then none
  else
    c.tok.bind fun tok =>
      if tok = [] ∨ buflen ≤ tok.length then none
      else if tok.all isDigit = false then none
      else copyBounded buflen tok

/-- The start time in the content of a `stat` file. -/
def starttimeOf (buflen : ℕ) (raw : Bytes) : Option (Buf buflen) :=
  if raw = [] then none
  else
    (afterLast 41 (cstr raw)).bind fun rest =>
      if rest = [] then none
      else (tokenLoop 20 { rest, field := 2, tok := none }).bind (startToken buflen)

/-- `"/proc/%d/stat"`. -/
def statPath (pid : Int32) : Bytes := lit "/proc/" ++ decimal pid.toInt.toNat ++ lit "/stat"

/-- `rab_proc_starttime`. -/
def rabProcStarttime (proc : Bytes → Option Bytes) (reads : List Read) (pid : Int32)
    (buflen : ℕ) : Option (Buf buflen) :=
  if buflen < starttimeMax ∨ pid ≤ 0 then none
  else if 64 ≤ (statPath pid).length then none
  else (readSmall proc reads (statPath pid) 512).bind (starttimeOf buflen)

/-- `rab_peer_identity`, given the credentials of the socket. -/
def rabPeerIdentity (proc : Bytes → Option Bytes) (cred : Option (UInt32 × UInt32 × Int32))
    (reads reads' : List Read) : Option Actor :=
  cred.bind fun (uid, gid, pid) =>
  (rabBootId proc reads).bind fun bootId =>
  (rabProcStarttime proc reads' pid starttimeMax).map fun starttime =>
    { uid, gid, pid, bootId, starttime }

/-! ## Reading a file -/

section Files

variable {buflen got : ℕ} {file : Bytes} {rs : List Read}

/-- A file that is shorter than the buffer is read whole, however the reads are cut. -/
theorem readLoop_eq_some (hlen : file.length < buflen - 1) (hrs : Read.failed ∉ rs)
    (hgot : got ≤ file.length) : readLoop buflen file rs got = some file := by
  induction rs generalizing got with
  | nil => rw [readLoop, if_pos hlen]
  | cons r rs ih =>
    rw [List.mem_cons, not_or] at hrs
    have hroom : ¬buflen - 1 ≤ got := by omega
    cases r with
    | interrupted =>
      rw [readLoop, if_neg hroom]
      exact ih hrs.2 hgot
    | failed => exact absurd rfl hrs.1
    | upTo n =>
      rw [readLoop, if_neg hroom]
      simp only
      split
      · -- The read returned nothing: the file has ended.
        have hend : got = file.length := by omega
        rw [hend, List.take_length]
      · exact ih hrs.2 (by omega)

/-- What was read is in the file. -/
theorem mem_of_readLoop {raw : Bytes} (h : readLoop buflen file rs got = some raw) :
    ∀ c ∈ raw, c ∈ file := by
  induction rs generalizing got with
  | nil =>
    rw [readLoop, Option.ite_none_right_eq_some] at h
    cases h.2
    exact fun _ => id
  | cons r rs ih =>
    cases r with
    | interrupted =>
      rw [readLoop, Option.ite_none_left_eq_some] at h
      exact ih h.2
    | failed =>
      rw [readLoop, Option.ite_none_left_eq_some] at h
      cases h.2
    | upTo n =>
      rw [readLoop, Option.ite_none_left_eq_some] at h
      obtain ⟨-, h⟩ := h
      simp only at h
      split at h
      · cases h
        exact fun c hc => List.mem_of_mem_take hc
      · exact ih h

theorem readSmall_eq_some {proc : Bytes → Option Bytes} {path : Bytes} (hfile : proc path = some file)
    (hlen : file.length < buflen - 1) (hrs : Read.failed ∉ rs) :
    readSmall proc rs path buflen = some file := by
  rw [readSmall, hfile, Option.bind_some]
  exact readLoop_eq_some hlen hrs (Nat.zero_le _)

end Files

/-! ## The token loop -/

section Tokens

variable {c c' : Scan} {k field : ℕ} {f : Bytes} {fields : List Bytes}

/-- A turn that does not end the loop has counted a field below the last. -/
theorem Scan.field_of_turn (h : c.turn = (c', true)) : c'.field = c.field + 1 ∧ c'.field ≠ 22 := by
  unfold Scan.turn at h
  split at h
  · cases h
  · simp only at h
    split at h
    · cases h
    · obtain ⟨rfl, hne⟩ := Prod.mk.inj h
      exact ⟨rfl, by simpa using hne⟩

/-- The loop ends within as many turns as there are fields to count, whatever it reads; further turns
would change nothing. -/
theorem exists_tokenLoop_eq (hfield : c.field + k = 22) (hk : 0 < k) :
    ∃ c', ∀ n, k ≤ n → tokenLoop n c = some c' := by
  induction k generalizing c with
  | zero => exact absurd hk (Nat.lt_irrefl _)
  | succ k ih =>
    cases hturn : c.turn with
    | mk c₁ goes =>
      cases goes with
      | false =>
        refine ⟨c₁, fun n hn => ?_⟩
        obtain ⟨n, rfl⟩ : ∃ m, n = m + 1 := ⟨n - 1, by omega⟩
        rw [tokenLoop, hturn]
      | true =>
        obtain ⟨hcount, hlast⟩ := Scan.field_of_turn hturn
        obtain ⟨c', hc'⟩ := ih (c := c₁) (by omega) (by omega)
        refine ⟨c', fun n hn => ?_⟩
        obtain ⟨n, rfl⟩ : ∃ m, n = m + 1 := ⟨n - 1, by omega⟩
        rw [tokenLoop, hturn]
        exact hc' n (by omega)

/-- The fields after the name of the process: each after a space, a newline at the end. -/
def fieldText (fields : List Bytes) : Bytes := fields.flatMap (fun f => 32 :: f) ++ [10]

/-- A field of the line: not empty, and without the characters that end it. -/
structure IsField (f : Bytes) : Prop where
  ne_nil : f ≠ []
  inToken : ∀ c ∈ f, inToken c = true

/-- A text that starts with a character that ends a token. -/
def EndsToken (text : Bytes) : Prop := ∃ b rest, text = b :: rest ∧ inToken b = false

theorem EndsToken.flatMap {tail : Bytes} (h : EndsToken tail) (fields : List Bytes) :
    EndsToken (fields.flatMap (fun f => 32 :: f) ++ tail) := by
  cases fields with
  | nil => exact h
  | cons f fields => exact ⟨32, _, by rw [List.flatMap_cons]; rfl, by decide⟩

theorem endsToken_fieldText (fields : List Bytes) : EndsToken (fieldText fields) :=
  EndsToken.flatMap ⟨10, [], rfl, by decide⟩ fields

/-- A turn at a field takes the field. -/
theorem turn_field {tail : Bytes} (hf : IsField f) (htail : EndsToken tail) (tok : Option Bytes) :
    Scan.turn { rest := 32 :: (f ++ tail), field, tok } =
      ({ rest := tail, field := field + 1, tok := some f }, decide (field + 1 ≠ 22)) := by
  obtain ⟨b, f', rfl⟩ := List.exists_cons_of_ne_nil hf.ne_nil
  obtain ⟨e, rest, rfl, hend⟩ := htail
  have hb : ¬b = 32 := by
    have hin := hf.inToken b List.mem_cons_self
    rintro rfl
    exact absurd hin (by decide)
  have hp : (32 :: (b :: f' ++ e :: rest)).dropWhile (· = 32) = b :: f' ++ e :: rest := by
    rw [List.dropWhile_cons_of_pos (by decide), List.cons_append,
      List.dropWhile_cons_of_neg (by simpa using hb)]
  have htake : (b :: f' ++ e :: rest).takeWhile inToken = b :: f' := by
    rw [List.takeWhile_append_of_pos hf.inToken, List.takeWhile_cons_of_neg (by simp [hend]),
      List.append_nil]
  have hdrop : (b :: f' ++ e :: rest).dropWhile inToken = e :: rest := by
    rw [List.dropWhile_append_of_pos hf.inToken, List.dropWhile_cons_of_neg (by simp [hend])]
  simp only [Scan.turn, if_neg (List.cons_ne_nil _ _), hp, htake, hdrop]
  rw [if_neg (by simp)]

/-- A turn at the newline takes an empty token and stays there. -/
theorem turn_newline (tok : Option Bytes) :
    Scan.turn { rest := [10], field, tok } =
      ({ rest := [10], field := field + 1, tok := some [] }, decide (field + 1 ≠ 22)) := by
  simp [Scan.turn, inToken]

/-- The loop ends with the field it is to find, or with an empty token if the line ends before.  What
comes after that field does not matter. -/
theorem tokenLoop_fields {tail : Bytes} (k field : ℕ) (hfield : field + (k + 1) = 22)
    (hfields : ∀ f ∈ fields, IsField f) (htail : EndsToken tail)
    (hend : tail = [10] ∨ k < fields.length) (tok : Option Bytes) :
    ∃ rest, tokenLoop (k + 1) { rest := fields.flatMap (fun f => 32 :: f) ++ tail, field, tok } =
      some { rest, field := 22, tok := some (fields[k]?.getD []) } := by
  induction k generalizing fields field tok with
  | zero =>
    -- The last field to count.
    have hlast : field + 1 = 22 := hfield
    cases fields with
    | nil =>
      obtain rfl := hend.resolve_right (Nat.not_lt_zero 0)
      rw [tokenLoop, List.flatMap_nil, List.nil_append, turn_newline, hlast]
      exact ⟨_, rfl⟩
    | cons f fields =>
      rw [tokenLoop, List.flatMap_cons, List.cons_append, List.cons_append, List.append_assoc,
        turn_field (hfields f List.mem_cons_self) (htail.flatMap fields), hlast]
      exact ⟨_, rfl⟩
  | succ k ih =>
    have hgoes : decide (field + 1 ≠ 22) = true := by
      rw [decide_eq_true_iff]
      omega
    cases fields with
    | nil =>
      obtain rfl := hend.resolve_right (Nat.not_lt_zero (k + 1))
      obtain ⟨rest, hrest⟩ := ih (field + 1) (by omega) hfields (Or.inl rfl) (some [])
      rw [tokenLoop, List.flatMap_nil, List.nil_append, turn_newline, hgoes]
      exact ⟨rest, hrest⟩
    | cons f fields =>
      obtain ⟨rest, hrest⟩ := ih (field + 1) (by omega)
        (fun g hg => hfields g (List.mem_cons_of_mem _ hg)) (hend.imp_right Nat.lt_of_succ_lt_succ)
        (some f)
      rw [tokenLoop, List.flatMap_cons, List.cons_append, List.cons_append, List.append_assoc,
        turn_field (hfields f List.mem_cons_self) (htail.flatMap fields), hgoes]
      exact ⟨rest, hrest⟩

end Tokens

/-! ## The stat line -/

/-- The content of a `stat` file. -/
def statLine (pidText comm : Bytes) (fields : List Bytes) : Bytes :=
  pidText ++ lit " (" ++ comm ++ lit ")" ++ fieldText fields

/-- What the start time is to be: the twentieth field after the name, if it is a number that fits. -/
def twentieth (buflen : ℕ) (fields : List Bytes) : Option Bytes :=
  fields[19]?.filter fun f => f.all isDigit && decide (f.length < buflen)

section StatLine

variable {buflen : ℕ} {pidText comm : Bytes} {fields : List Bytes}

theorem afterLast_append {c : UInt8} (a : Bytes) {b : Bytes} (hb : c ∉ b) :
    afterLast c (a ++ c :: b) = some b := by
  have hmem : c ∈ a ++ c :: b := by simp
  have hrev : ∀ x ∈ b.reverse, decide (x ≠ c) = true := by
    intro x hx
    rw [decide_eq_true_iff]
    rintro rfl
    exact hb (List.mem_reverse.mp hx)
  rw [afterLast, if_pos hmem, List.reverse_append, List.reverse_cons, List.append_assoc,
    List.takeWhile_append_of_pos hrev, List.singleton_append, List.takeWhile_cons_of_neg (by simp),
    List.append_nil, List.reverse_reverse]

/-- The checks on a token that was found. -/
theorem startToken_eq {tok rest : Bytes} (hne : tok ≠ []) (hnul : 0 ∉ tok) :
    (startToken buflen { rest, field := 22, tok := some tok }).map Buf.bytes =
      (some tok).filter fun f => f.all isDigit && decide (f.length < buflen) := by
  have hcstr : cstr tok = tok := cstr_eq_self hnul
  have hfield : ¬(22 : ℕ) ≠ 22 := fun h => h rfl
  simp only [startToken, if_neg hfield, Option.bind_some, Option.filter_some]
  by_cases hlen : tok.length < buflen
  · rw [if_neg (by simp [hne, hlen])]
    cases hdigits : tok.all isDigit with
    | false => simp
    | true =>
      have hcopy : copyBounded buflen tok = some ⟨cstr tok, by rwa [hcstr], nul_notMem_cstr tok⟩ :=
        dif_pos (by rwa [hcstr])
      simp [hcopy, hcstr, hlen]
  · rw [if_pos (Or.inr (Nat.le_of_not_lt hlen))]
    simp [hlen]

theorem fieldText_append (fields fields' : List Bytes) :
    fieldText (fields ++ fields') = fields.flatMap (fun f => 32 :: f) ++ fieldText fields' := by
  simp [fieldText]

/-- What the string functions see of a line: all of it, up to the end of the twentieth field. -/
theorem cstr_statLine (hnul : 0 ∉ statLine pidText comm (fields.take 20)) :
    cstr (statLine pidText comm fields) = (pidText ++ lit " (" ++ comm) ++
      41 :: ((fields.take 20).flatMap (fun f => 32 :: f) ++ cstr (fieldText (fields.drop 20))) := by
  have hline : ∀ l : Bytes, pidText ++ lit " (" ++ comm ++ lit ")" ++ l =
      (pidText ++ lit " (" ++ comm) ++ 41 :: l := by
    intro l
    rw [List.append_assoc _ (lit ")")]
    rfl
  have hsplit : statLine pidText comm fields = (pidText ++ lit " (" ++ comm ++ lit ")" ++
      (fields.take 20).flatMap (fun f => 32 :: f)) ++ fieldText (fields.drop 20) := by
    rw [List.append_assoc, ← fieldText_append, List.take_append_drop, statLine]
  rw [hsplit, cstr_append, List.append_assoc, hline]
  intro h0
  rw [statLine, fieldText, ← List.append_assoc] at hnul
  exact hnul (List.mem_append_left _ h0)

/-- The start time in a line of the documented form. -/
theorem starttimeOf_statLine (hnul : 0 ∉ statLine pidText comm (fields.take 20))
    (hfields : ∀ f ∈ fields, IsField f) (hparen : ∀ f ∈ fields, 41 ∉ f) :
    (starttimeOf buflen (statLine pidText comm fields)).map Buf.bytes = twentieth buflen fields := by
  have hcstr := cstr_statLine hnul
  set tail := cstr (fieldText (fields.drop 20)) with htail
  have hends : EndsToken tail := by
    obtain ⟨b, rest, htext, hb⟩ := endsToken_fieldText (fields.drop 20)
    have hb0 : b ≠ 0 := by
      rintro rfl
      exact absurd hb (by decide)
    refine ⟨b, cstr rest, ?_, hb⟩
    rw [htail, htext, cstr, List.takeWhile_cons_of_pos (by simpa using hb0)]
    rfl
  have hparen' : 41 ∉ (fields.take 20).flatMap (fun f => 32 :: f) ++ tail := by
    have htext : (41 : UInt8) ∉ fieldText fields := by
      simp only [fieldText, List.mem_append, List.mem_flatMap, List.mem_cons, List.not_mem_nil,
        or_false, not_or, not_exists, not_and]
      exact ⟨fun f hf => ⟨by decide, hparen f hf⟩, by decide⟩
    rw [← List.take_append_drop 20 fields, fieldText_append] at htext
    intro hmem
    refine htext (List.mem_append.mpr ((List.mem_append.mp hmem).imp_right fun h => ?_))
    exact (List.takeWhile_sublist _).subset h
  have hafter : afterLast 41 (cstr (statLine pidText comm fields)) =
      some ((fields.take 20).flatMap (fun f => 32 :: f) ++ tail) := by
    rw [hcstr]
    exact afterLast_append _ hparen'
  have hne : statLine pidText comm fields ≠ [] := by simp [statLine, fieldText]
  have hne' : (fields.take 20).flatMap (fun f => 32 :: f) ++ tail ≠ [] := by
    obtain ⟨b, rest, htext, -⟩ := hends
    simp [htext]
  have hend : tail = [10] ∨ 19 < (fields.take 20).length := by
    rcases Nat.lt_or_ge 20 fields.length with hlt | hle
    · right
      rw [List.length_take]
      omega
    · left
      rw [htail, List.drop_eq_nil_of_le hle]
      rfl
  obtain ⟨rest, hloop⟩ := tokenLoop_fields 19 2 rfl
    (fun f hf => hfields f (List.mem_of_mem_take hf)) hends hend none
  rw [List.getElem?_take_of_lt (by norm_num)] at hloop
  rw [starttimeOf, if_neg hne, hafter, Option.bind_some, if_neg hne', hloop, Option.bind_some,
    twentieth]
  cases hf : fields[19]? with
  | none => simp [startToken]
  | some f =>
    have hmem : f ∈ fields.take 20 := by
      rw [← List.getElem?_take_of_lt (by norm_num : 19 < 20)] at hf
      exact List.mem_of_getElem? hf
    have hnul' : 0 ∉ f := fun h0 => hnul (by
      simp only [statLine, fieldText, List.mem_append, List.mem_cons, List.mem_flatMap]
      exact Or.inr (Or.inl ⟨f, hmem, Or.inr h0⟩))
    exact startToken_eq (hfields f (List.mem_of_mem_take hmem)).ne_nil hnul'

theorem length_statPath_lt (pid : Int32) : (statPath pid).length < 64 := by
  have hpid := pid.toInt_lt
  have hdigits : (decimal pid.toInt.toNat).length ≤ 10 :=
    length_decimal_le (by omega) (by norm_num)
  have hhead : (lit "/proc/").length = 6 := by decide
  have htail : (lit "/stat").length = 5 := by decide
  rw [statPath, List.length_append, List.length_append, hhead, htail]
  omega

end StatLine

/-! ## Main results -/

/-- What a start time is: digits that fit, and at least one of them. -/
theorem isDigit_of_starttimeOf {buflen : ℕ} {raw : Bytes} {b : Buf buflen}
    (h : starttimeOf buflen raw = some b) : b.bytes ≠ [] ∧ b.bytes.all isDigit = true := by
  unfold starttimeOf at h
  obtain ⟨-, h⟩ := Option.ite_none_left_eq_some.mp h
  obtain ⟨rest, -, h⟩ := Option.bind_eq_some_iff.mp h
  obtain ⟨-, h⟩ := Option.ite_none_left_eq_some.mp h
  obtain ⟨c, -, h⟩ := Option.bind_eq_some_iff.mp h
  unfold startToken at h
  obtain ⟨-, h⟩ := Option.ite_none_left_eq_some.mp h
  obtain ⟨tok, -, h⟩ := Option.bind_eq_some_iff.mp h
  obtain ⟨hne, h⟩ := Option.ite_none_left_eq_some.mp h
  obtain ⟨hdigits, h⟩ := Option.ite_none_left_eq_some.mp h
  have hdigits : tok.all isDigit = true := by simpa using hdigits
  have hnul : 0 ∉ tok := fun h0 => absurd (List.all_eq_true.mp hdigits 0 h0) (by decide)
  rw [bytes_of_copyBounded h, cstr_eq_self hnul]
  exact ⟨fun hnil => hne (Or.inl hnil), hdigits⟩

/-- A boot id is not empty, if its file has no zero octet. -/
theorem ne_nil_of_rabBootId {proc : Bytes → Option Bytes} {reads : List Read} {b : Buf bootIdMax}
    (h : rabBootId proc reads = some b)
    (hnul : ∀ file, proc (lit "/proc/sys/kernel/random/boot_id") = some file → 0 ∉ file) :
    b.bytes ≠ [] := by
  unfold rabBootId at h
  obtain ⟨raw, hraw, h⟩ := Option.bind_eq_some_iff.mp h
  obtain ⟨file, hfile, hread⟩ := Option.bind_eq_some_iff.mp hraw
  obtain ⟨hne, hcopy⟩ := Option.ite_none_left_eq_some.mp h
  have hid : 0 ∉ stripLineEnd raw := by
    intro h0
    have hmem : 0 ∈ raw :=
      List.mem_reverse.mp ((List.dropWhile_sublist _).subset (List.mem_reverse.mp h0))
    exact hnul file hfile (mem_of_readLoop hread 0 hmem)
  rw [bytes_of_copyBounded hcopy, cstr_eq_self hid]
  exact fun hnil => hne (Or.inl hnil)

/-- An identity that was read is that of a peer: the pid is positive, the boot id and the start time
are not empty, and the start time is a number. -/
theorem fromPeer_of_rabPeerIdentity {proc : Bytes → Option Bytes}
    {cred : Option (UInt32 × UInt32 × Int32)} {reads reads' : List Read} {a : Actor}
    (h : rabPeerIdentity proc cred reads reads' = some a)
    (hnul : ∀ file, proc (lit "/proc/sys/kernel/random/boot_id") = some file → 0 ∉ file) :
    a.FromPeer := by
  unfold rabPeerIdentity at h
  obtain ⟨⟨uid, gid, pid⟩, -, h⟩ := Option.bind_eq_some_iff.mp h
  obtain ⟨bootId, hboot, h⟩ := Option.bind_eq_some_iff.mp h
  obtain ⟨starttime, hstart, rfl⟩ := Option.map_eq_some_iff.mp h
  unfold rabProcStarttime at hstart
  obtain ⟨hok, hstart⟩ := Option.ite_none_left_eq_some.mp hstart
  obtain ⟨-, hstart⟩ := Option.ite_none_left_eq_some.mp hstart
  obtain ⟨raw, -, hstart⟩ := Option.bind_eq_some_iff.mp hstart
  obtain ⟨hne, hdigits⟩ := isDigit_of_starttimeOf hstart
  have hpid : 0 < pid := Int32.not_le.mp fun hle => hok (Or.inr hle)
  exact ⟨Int32.lt_iff_toInt_lt.mp hpid, ne_nil_of_rabBootId hboot hnul, hne, hdigits⟩

/-- A process cannot choose its own start time: for a `stat` file of the documented form that has no
zero octet before the end of its twentieth field, however it is read, the start time is the twentieth
field after the name if that is a number which fits, and there is none otherwise; the name does not
matter.  The token loop ends on every buffer. -/
theorem starttime_not_chosen (proc : Bytes → Option Bytes) (reads : List Read) (pid : Int32)
    (buflen : ℕ) (pidText comm : Bytes) (fields : List Bytes) (hpid : 0 < pid)
    (hbuf : starttimeMax ≤ buflen) (hreads : Read.failed ∉ reads)
    (hfile : proc (statPath pid) = some (statLine pidText comm fields))
    (hlen : (statLine pidText comm fields).length < 511)
    (hnul : 0 ∉ statLine pidText comm (fields.take 20))
    (hfields : ∀ f ∈ fields, f ≠ [] ∧ 41 ∉ f ∧ 32 ∉ f ∧ 10 ∉ f) :
    (rabProcStarttime proc reads pid buflen).map Buf.bytes = twentieth buflen fields ∧
      ∀ rest, ∃ c, ∀ n, 20 ≤ n → tokenLoop n { rest, field := 2, tok := none } = some c := by
  constructor
  · have hok : ¬(buflen < starttimeMax ∨ pid ≤ 0) := by
      rw [not_or]
      exact ⟨Nat.not_lt.mpr hbuf, Int32.not_le.mpr hpid⟩
    have hread : readSmall proc reads (statPath pid) 512 = some (statLine pidText comm fields) :=
      readSmall_eq_some hfile hlen hreads
    rw [rabProcStarttime, if_neg hok, if_neg (Nat.not_le.mpr (length_statPath_lt pid)), hread,
      Option.bind_some]
    refine starttimeOf_statLine hnul (fun f hf => ⟨(hfields f hf).1, fun c hc => ?_⟩)
      fun f hf => (hfields f hf).2.1
    obtain ⟨-, -, hspace, hnewline⟩ := hfields f hf
    have hc32 : c ≠ 32 := fun h => hspace (h ▸ hc)
    have hc10 : c ≠ 10 := fun h => hnewline (h ▸ hc)
    simp [inToken, hc32, hc10]
  · intro rest
    exact exists_tokenLoop_eq rfl (by norm_num)

namespace Sample

/-- A directory with the `stat` file of one process, of this name and start time. -/
def proc (comm starttime : Bytes) (path : Bytes) : Option Bytes :=
  if path = statPath 4321 then
    some (statLine (lit "4321") comm (List.replicate 19 (lit "0") ++ [starttime, lit "9"]))
  else none

end Sample

/-- A field is seen only up to a zero octet: the field `7`, zero is no number but is read as one. -/
theorem starttime_cut_at_nul :
    (rabProcStarttime (Sample.proc (lit "cat") [55, 0]) [] 4321 starttimeMax).map Buf.bytes =
        some [55] ∧
      twentieth starttimeMax (List.replicate 19 (lit "0") ++ [[55, 0], lit "9"]) = none := by
  decide +kernel

/-- A process whose name imitates the end of a line. -/
theorem starttime_not_chosen_imitated :
    (rabProcStarttime (Sample.proc (lit "x) S 1 1\n") (lit "8675309"))
      [.interrupted, .upTo 9] 4321 starttimeMax).map Buf.bytes = some (lit "8675309") := by
  have h := (starttime_not_chosen (Sample.proc (lit "x) S 1 1\n") (lit "8675309"))
    [.interrupted, .upTo 9] 4321 starttimeMax (lit "4321") (lit "x) S 1 1\n")
    (List.replicate 19 (lit "0") ++ [lit "8675309", lit "9"]) (by decide) le_rfl (by decide)
    (by decide +kernel) (by decide +kernel) (by decide +kernel) (by decide +kernel)).1
  rw [h]
  decide +kernel

end AuditBroker
