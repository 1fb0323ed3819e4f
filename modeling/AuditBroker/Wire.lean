import AuditBroker.Foundation.Stream
import AuditBroker.Basic

/-!
# Frames on the wire

A frame is a version octet, a big-endian 32-bit length and a body.  Two receivers and two senders
implement it: the blocking functions of `proto.c` (`rabReadFrame`, `rabWriteFrame`) and the
non-blocking ones of the reactor in `main.c` (`connDoRecv`, `connQueueResponse`), where the receiver
keeps its progress in the connection from one call to the next.

`classify` says what a stream of octets holds at its beginning, without reference to how it is read.
Both receivers compute it, whatever the reads deliver.
-/

namespace AuditBroker

open Foundation

/-! ## Headers -/

/-- `RAB_PROTO_VERSION`. -/
abbrev protoVersion : UInt8 := 1

/-- `RAB_MAX_BODY`. -/
abbrev maxBody : UInt32 := 65536

/-- The size of a header. -/
abbrev headerSize : ℕ := 5

/-- The length that a header announces. -/
def frameLen (hdr : Bytes) : UInt32 :=
  (hdr.getD 1 0).toUInt32 <<< 24 ||| (hdr.getD 2 0).toUInt32 <<< 16 |||
    (hdr.getD 3 0).toUInt32 <<< 8 ||| (hdr.getD 4 0).toUInt32

/-- The header that `rab_write_frame` writes. -/
def frameHeader (len : UInt32) : Bytes :=
  [protoVersion, ((len >>> 24) &&& 0xff).toUInt8, ((len >>> 16) &&& 0xff).toUInt8,
    ((len >>> 8) &&& 0xff).toUInt8, (len &&& 0xff).toUInt8]

/-- The header that `conn_queue_response` writes; its length is a `size_t`. -/
def queueHeader (len : UInt64) : Bytes :=
  [protoVersion, ((len >>> 24) &&& 0xff).toUInt8, ((len >>> 16) &&& 0xff).toUInt8,
    ((len >>> 8) &&& 0xff).toUInt8, (len &&& 0xff).toUInt8]

/-- Four octets, most significant first, put together by shifts. -/
theorem or_octets {a b c d : ℕ} (hb : b < 256) (hc : c < 256) (hd : d < 256) :
    a * 2 ^ 24 ||| b * 2 ^ 16 ||| c * 2 ^ 8 ||| d = ((a * 256 + b) * 256 + c) * 256 + d := by
  have hor : ∀ {x y k : ℕ}, y < 2 ^ k → x * 2 ^ k ||| y = x * 2 ^ k + y := by
    intro x y k hy
    rw [← Nat.shiftLeft_eq, Nat.shiftLeft_add_eq_or_of_lt hy]
  rw [hor (k := 24) (by omega), show a * 2 ^ 24 + b * 2 ^ 16 = (a * 256 + b) * 2 ^ 16 by ring,
    hor (k := 16) (by omega),
    show (a * 256 + b) * 2 ^ 16 + c * 2 ^ 8 = ((a * 256 + b) * 256 + c) * 2 ^ 8 by ring,
    hor (k := 8) (by omega)]
  norm_num

theorem frameLen_frameHeader (len : UInt32) (rest : Bytes) :
    frameLen (frameHeader len ++ rest) = len := by
  have hlen := len.toNat_lt
  have hand : ∀ n, n &&& 255 = n % 256 := fun n => Nat.and_two_pow_sub_one_eq_mod n 8
  simp only [frameLen, frameHeader, List.cons_append, List.getD_cons_succ, List.getD_cons_zero]
  apply UInt32.toNat_inj.mp
  simp only [UInt32.toNat_or, UInt32.toNat_shiftLeft, UInt8.toNat_toUInt32, UInt32.toNat_toUInt8,
    UInt32.toNat_and, UInt32.toNat_shiftRight, UInt32.toNat_ofNat, hand, Nat.reducePow,
    Nat.reduceMod, Nat.shiftRight_eq_div_pow, Nat.mod_mod, Nat.shiftLeft_eq]
  generalize len.toNat = n at hlen
  -- No shift to the left overflows.
  have hmod : ∀ k, k ≤ 16777216 → n / k % 256 * k % 4294967296 = n / k % 256 * k := by
    intro k hk
    refine Nat.mod_eq_of_lt (lt_of_le_of_lt (Nat.mul_le_mul_left _ hk) ?_)
    omega
  rw [hmod 16777216 le_rfl, hmod 65536 (by omega), hmod 256 (by omega)]
  have := or_octets (a := n / 16777216 % 256) (b := n / 65536 % 256) (c := n / 256 % 256)
    (d := n % 256) (by omega) (by omega) (by omega)
  norm_num at this
  rw [this]
  omega

/-- Both senders write the same header. -/
theorem queueHeader_toUInt64 (len : UInt32) : queueHeader len.toUInt64 = frameHeader len := by
  simp only [queueHeader, frameHeader, List.cons.injEq, and_true, true_and]
  refine ⟨?_, ?_, ?_, ?_⟩
  all_goals
    apply UInt8.toNat_inj.mp
    simp

/-! ## The blocking functions -/

/-- `rab_frame_status`, with the body and the length that a complete frame sets. -/
inductive FrameStatus where
  | ok (body : Bytes) (len : UInt32)
  | bad
  | tooLarge
  | eof
  | io
  deriving DecidableEq

/-- `rab_read_full`: of the errors, only an interrupted call is retried. -/
def rabReadFull (n : ℕ) (s : Source) : Fill × Bytes × Source :=
  match fill n [] s with
  | (.again, buf, s) => (.fail, buf, s)
  | r => r

/-- `rab_read_frame`. -/
def rabReadFrame (s : Source) : FrameStatus × Source :=
  match rabReadFull headerSize s with
  | (.full, header, s) =>
    if header.getD 0 0 ≠ protoVersion then (.bad, s)
    else
      let n := frameLen header
      if maxBody < n then (.tooLarge, s)
      else if 0 < n then
        match rabReadFull n.toNat s with
        | (.full, body, s) => (.ok body n, s)
        | (.eof, _, s) => (.bad, s)
        | (_, _, s) => (.io, s)
      else (.ok [] n, s)
  | (.eof, _, s) => (.eof, s)
  | (_, _, s) => (.io, s)

/-- `rab_write_full`: whether all was written. -/
def rabWriteFull (buf : Bytes) (d : Drain) : Bool × Drain :=
  match flush buf d with
  | (.done, _, d) => (true, d)
  | (_, _, d) => (false, d)

/-- `rab_write_frame`. -/
def rabWriteFrame (body : Bytes) (len : UInt32) (d : Drain) : Bool × Drain :=
  if maxBody < len then (false, d)
  else
    match rabWriteFull (frameHeader len) d with
    | (false, d) => (false, d)
    | (true, d) => if 0 < len then rabWriteFull (body.take len.toNat) d else (true, d)

/-! ## The non-blocking functions -/

/-- The receiving half of a connection. -/
structure Recv where
  /-- The octets of `hdr` that were read. -/
  hdr : Bytes := []
  /-- `body_len`, once `have_len` is set. -/
  bodyLen : Option UInt32 := none
  /-- The octets of `body` that were read. -/
  body : Bytes := []
  deriving DecidableEq

/-- `recv_result`. -/
inductive RecvResult where
  | more
  | close
  | done
  | badVer
  | tooLarge
  | badFrame
  deriving DecidableEq

/-- The second loop of `conn_do_recv`. -/
def recvBody (len : UInt32) (c : Recv) (s : Source) : RecvResult × Recv × Source :=
  match fill len.toNat c.body s with
  | (.again, body, s) => (.more, { c with body }, s)
  | (.fail, body, s) => (.close, { c with body }, s)
  | (.eof, body, s) => (.badFrame, { c with body }, s)
  | (.full, body, s) => (.done, { c with body }, s)

/-- `conn_do_recv`. -/
def connDoRecv (c : Recv) (s : Source) : RecvResult × Recv × Source :=
  match fill headerSize c.hdr s with
  | (.again, hdr, s) => (.more, { c with hdr }, s)
  | (.fail, hdr, s) => (.close, { c with hdr }, s)
  | (.eof, hdr, s) => (.close, { c with hdr }, s)
  | (.full, hdr, s) =>
    match c.bodyLen with
    | some len => recvBody len { c with hdr } s
    | none =>
      if hdr.getD 0 0 ≠ protoVersion then (.badVer, { c with hdr }, s)
      else if maxBody < frameLen hdr then (.tooLarge, { c with hdr }, s)
      else recvBody (frameLen hdr) { c with hdr, bodyLen := some (frameLen hdr) } s

/-- `conn_queue_response`: the octets to send, unless there is no response or it is too long. -/
def connQueueResponse (resp : Option Bytes) : Option Bytes :=
  resp.bind fun resp =>
    if maxBody.toNat < (cstr resp).length then none
    else some (queueHeader (UInt64.ofNat (cstr resp).length) ++ cstr resp)

/-- A receiver that would have to wait has used up a call. -/
theorem budget_lt_of_connDoRecv {c c' : Recv} {s s' : Source}
    (h : connDoRecv c s = (.more, c', s')) : s'.budget < s.budget := by
  have hbody : ∀ {len : UInt32} {c : Recv} {s₁ : Source}, recvBody len c s₁ = (.more, c', s') →
      s'.budget < s₁.budget := by
    intro len c s₁ h
    have hb := (fill_budget_le len.toNat c.body s₁).2
    unfold recvBody at h
    split at h <;> simp only [Prod.mk.injEq, reduceCtorEq, false_and, true_and] at h
    rename_i heq
    rw [heq] at hb
    rw [← h.2]
    exact hb rfl
  have hb := fill_budget_le headerSize c.hdr s
  unfold connDoRecv at h
  split at h
  case h_1 heq =>
    simp only [Prod.mk.injEq, true_and] at h
    rw [heq] at hb
    rw [← h.2]
    exact hb.2 rfl
  case h_2 => simp at h
  case h_3 => simp at h
  case h_4 hdr s₁ heq =>
    rw [heq] at hb
    split at h
    · exact lt_of_lt_of_le (hbody h) hb.1
    · split at h
      · simp at h
      split at h
      · simp at h
      exact lt_of_lt_of_le (hbody h) hb.1

/-- Call `conn_do_recv` until it stops asking for more. -/
def driveRecv (c : Recv) (s : Source) : RecvResult × Recv × Source :=
  match _h : connDoRecv c s with
  | (.more, c', s') => driveRecv c' s'
  | r => r
termination_by s.budget
decreasing_by exact budget_lt_of_connDoRecv _h

/-! ## What a stream begins with -/

/-- What the beginning of a stream is. -/
inductive FrameClass where
  | complete (body : Bytes)
  | badVersion
  | tooLarge
  | eofHeader
  | eofBody

/-- The frame at the beginning of a stream, and what comes after the part that decides it. -/
def classify (stream : Bytes) : FrameClass × Bytes :=
  let hdr := stream.take headerSize
  let rest := stream.drop headerSize
  if stream.length < headerSize then (.eofHeader, [])
  else if hdr.getD 0 0 ≠ protoVersion then (.badVersion, rest)
  else if maxBody < frameLen hdr then (.tooLarge, rest)
  else if rest.length < (frameLen hdr).toNat then (.eofBody, [])
  else (.complete (rest.take (frameLen hdr).toNat), rest.drop (frameLen hdr).toNat)

/-- What `rab_read_frame` returns for it. -/
def FrameClass.status : FrameClass → FrameStatus
  | complete body => .ok body (UInt32.ofNat body.length)
  | badVersion => .bad
  | tooLarge => .tooLarge
  | eofHeader => .eof
  | eofBody => .bad

/-- What `conn_do_recv` returns for it. -/
def FrameClass.result : FrameClass → RecvResult
  | complete _ => .done
  | badVersion => .badVer
  | tooLarge => .tooLarge
  | eofHeader => .close
  | eofBody => .badFrame

theorem classify_of_lt {stream : Bytes} (h : stream.length < headerSize) :
    classify stream = (.eofHeader, []) := by
  rw [classify, if_pos h]

theorem classify_append {hdr : Bytes} (h : hdr.length = headerSize) (rest : Bytes) :
    classify (hdr ++ rest) =
      if hdr.getD 0 0 ≠ protoVersion then (.badVersion, rest)
      else if maxBody < frameLen hdr then (.tooLarge, rest)
      else if rest.length < (frameLen hdr).toNat then (.eofBody, [])
      else (.complete (rest.take (frameLen hdr).toNat), rest.drop (frameLen hdr).toNat) := by
  rw [classify, List.take_left' h, List.drop_left' h, if_neg (by simp [h])]

/-- A stream that has a whole header. -/
theorem exists_header {stream : Bytes} (h : headerSize ≤ stream.length) :
    ∃ hdr rest, stream = hdr ++ rest ∧ hdr.length = headerSize :=
  ⟨stream.take headerSize, stream.drop headerSize, (List.take_append_drop _ _).symm,
    by rw [List.length_take, min_eq_left h]⟩

theorem frameLen_append {hdr : Bytes} (h : hdr.length = headerSize) (rest : Bytes) :
    frameLen (hdr ++ rest) = frameLen hdr := by
  have hget : ∀ i < headerSize, (hdr ++ rest).getD i 0 = hdr.getD i 0 := by
    intro i hi
    rw [List.getD_eq_getElem?_getD, List.getD_eq_getElem?_getD,
      List.getElem?_append_left (by rwa [h])]
  simp only [frameLen, hget 1 (by decide), hget 2 (by decide), hget 3 (by decide),
    hget 4 (by decide)]

/-- The octets that decide the classification are at most those of one frame. -/
theorem classify_oneFrame (stream : Bytes) :
    ∃ used, stream = used ++ (classify stream).2 ∧
      (used.length ≤ headerSize ∨
        frameLen used ≤ maxBody ∧ used.length ≤ headerSize + (frameLen used).toNat) := by
  rcases lt_or_ge stream.length headerSize with hlt | hge
  · rw [classify_of_lt hlt]
    exact ⟨stream, by simp, Or.inl hlt.le⟩
  obtain ⟨hdr, rest, rfl, hhdr⟩ := exists_header hge
  rw [classify_append hhdr]
  split
  · exact ⟨hdr, rfl, Or.inl hhdr.le⟩
  split
  · exact ⟨hdr, rfl, Or.inl hhdr.le⟩
  rename_i hmax
  have hmax : frameLen hdr ≤ maxBody := UInt32.not_lt.mp hmax
  split
  · rename_i hlt
    refine ⟨hdr ++ rest, by simp, Or.inr ?_⟩
    rw [frameLen_append hhdr, List.length_append, hhdr]
    exact ⟨hmax, by omega⟩
  · refine ⟨hdr ++ rest.take (frameLen hdr).toNat, by simp, Or.inr ?_⟩
    rw [frameLen_append hhdr, List.length_append, hhdr]
    exact ⟨hmax, Nat.add_le_add_left (List.length_take_le _ _) _⟩

/-- A length taken from a header, from the body that has it. -/
theorem ofNat_length_take {n : UInt32} {b : Bytes} (h : n.toNat ≤ b.length) :
    UInt32.ofNat (b.take n.toNat).length = n := by
  rw [List.length_take, min_eq_left h, UInt32.ofNat_toNat]

/-- On a blocking descriptor a buffer is filled, or the file ends before that. -/
theorem rabReadFull_cases {n : ℕ} {s : Source} (hfail : .fail ∉ s.ready)
    (hagain : .again ∉ s.ready) :
    ∃ s', s'.ready <:+ s.ready ∧
      (n ≤ s.stream.length ∧ rabReadFull n s = (.full, s.stream.take n, s') ∧
          s'.stream = s.stream.drop n ∨
        s.stream.length < n ∧ (∃ buf, rabReadFull n s = (.eof, buf, s')) ∧ s'.stream = []) := by
  have hf := filled_fill (show ([] : Bytes).length ≤ n from Nat.zero_le _) s
  have hcases := hf.cases hfail
  have hready := hf.ready
  unfold rabReadFull
  rcases hfill : fill n [] s with ⟨r, buf, s'⟩
  rw [hfill] at hcases hready
  simp only [List.nil_append] at hcases
  obtain ⟨rfl, hlen, rfl, hstream⟩ | ⟨rfl, hlen, hstream⟩ | ⟨rfl, hmem, -⟩ := hcases
  · exact ⟨s', hready, Or.inl ⟨hlen, rfl, hstream⟩⟩
  · exact ⟨s', hready, Or.inr ⟨hlen, ⟨buf, rfl⟩, hstream⟩⟩
  · exact absurd hmem hagain

/-- The blocking receiver computes the classification, whatever its reads deliver. -/
theorem rabReadFrame_eq {s : Source} (hfail : .fail ∉ s.ready) (hagain : .again ∉ s.ready) :
    (rabReadFrame s).1 = (classify s.stream).1.status ∧
      (rabReadFrame s).2.stream = (classify s.stream).2 := by
  obtain ⟨s₁, hsuff, ⟨hlen, hread, hrest⟩ | ⟨hlen, ⟨buf, hread⟩, hrest⟩⟩ :=
    rabReadFull_cases (n := headerSize) hfail hagain
  · obtain ⟨hdr, rest, hstream, hhdr⟩ := exists_header hlen
    rw [hstream, List.drop_left' hhdr] at hrest
    rw [rabReadFrame, hread, hstream, List.take_left' hhdr, classify_append hhdr, ← hrest]
    simp only
    by_cases hver : hdr.getD 0 0 ≠ protoVersion
    · rw [if_pos hver, if_pos hver]
      exact ⟨rfl, rfl⟩
    rw [if_neg hver, if_neg hver]
    by_cases hmax : maxBody < frameLen hdr
    · rw [if_pos hmax, if_pos hmax]
      exact ⟨rfl, rfl⟩
    rw [if_neg hmax, if_neg hmax]
    by_cases hpos : 0 < frameLen hdr
    · rw [if_pos hpos]
      obtain ⟨s₂, -, ⟨hlen₂, hread₂, hrest₂⟩ | ⟨hlen₂, ⟨buf₂, hread₂⟩, hrest₂⟩⟩ :=
        rabReadFull_cases (n := (frameLen hdr).toNat) (fun h => hfail (hsuff.subset h))
          (fun h => hagain (hsuff.subset h))
      · rw [hread₂, if_neg (not_lt.mpr hlen₂)]
        exact ⟨by rw [FrameClass.status, ofNat_length_take hlen₂], hrest₂⟩
      · rw [hread₂, if_pos hlen₂]
        exact ⟨rfl, hrest₂⟩
    · have hzero : frameLen hdr = 0 := by
        rw [UInt32.lt_iff_toNat_lt] at hpos
        exact UInt32.toNat_inj.mp (by simpa using hpos)
      simp [hzero, FrameClass.status]
  · rw [rabReadFrame, hread, classify_of_lt hlen]
    exact ⟨rfl, hrest⟩

/-! ## The receiver of the reactor -/

/-- The progress of a receiver. -/
structure Recv.Ok (c : Recv) : Prop where
  hdr_le : c.hdr.length ≤ headerSize
  body_eq_nil : c.bodyLen = none → c.body = []
  /-- The length is known from a complete header that was found good. -/
  header : ∀ len, c.bodyLen = some len → c.hdr.length = headerSize ∧
    c.hdr.getD 0 0 = protoVersion ∧ len = frameLen c.hdr ∧ ¬maxBody < len ∧
    c.body.length ≤ len.toNat

theorem Recv.Ok.empty : Recv.Ok {} := ⟨by simp, by simp, by simp⟩

/-- What a receiver has taken from the stream. -/
def Recv.taken (c : Recv) : Bytes := c.hdr ++ c.body

/-- What one call of `conn_do_recv` comes to: it waits for the rest of the same stream, or it has
classified it. -/
def Progress (stream : Bytes) (s : Source) : RecvResult × Recv × Source → Prop
  | (.more, c, s') => c.Ok ∧ c.taken ++ s'.stream = stream ∧ s'.ready <:+ s.ready
  | (r, c, s') => r = (classify stream).1.result ∧ s'.stream = (classify stream).2 ∧
      ∀ body, (classify stream).1 = .complete body →
        c.body = body ∧ c.bodyLen = some (UInt32.ofNat body.length)

/-- The body of a frame whose header is complete and good. -/
theorem progress_recvBody {c : Recv} {s : Source} {len : UInt32} (hc : c.Ok)
    (hlen : c.bodyLen = some len) (hfail : .fail ∉ s.ready) :
    Progress (c.taken ++ s.stream) s (recvBody len c s) := by
  obtain ⟨hhdr, hver, rfl, hmax, hbody⟩ := hc.header len hlen
  have hf := filled_fill hbody s
  have hcases := hf.cases hfail
  have hmoved := hf.moved
  have hready := hf.ready
  -- The header decides everything but whether the body is complete.
  have hclass : classify (c.taken ++ s.stream) =
      if (c.body ++ s.stream).length < (frameLen c.hdr).toNat then (.eofBody, [])
      else (.complete ((c.body ++ s.stream).take (frameLen c.hdr).toNat),
        (c.body ++ s.stream).drop (frameLen c.hdr).toNat) := by
    rw [Recv.taken, List.append_assoc, classify_append hhdr, if_neg (by simpa using hver),
      if_neg hmax]
  unfold recvBody
  rcases hfill : fill (frameLen c.hdr).toNat c.body s with ⟨r, body, s'⟩
  rw [hfill] at hcases hmoved hready
  obtain ⟨rfl, hle, rfl, hrest⟩ | ⟨rfl, hlt, hrest⟩ | ⟨rfl, -, hlt, -⟩ := hcases
  · rw [if_neg (not_lt.mpr hle)] at hclass
    refine ⟨by rw [hclass]; rfl, by rw [hclass]; exact hrest, ?_⟩
    intro body hbody
    rw [hclass] at hbody
    cases hbody
    exact ⟨rfl, by rw [ofNat_length_take hle]; exact hlen⟩
  · rw [if_pos hlt] at hclass
    exact ⟨by rw [hclass]; rfl, by rw [hclass]; exact hrest, by simp [hclass]⟩
  · refine ⟨⟨hc.hdr_le, by simp [hlen], ?_⟩, ?_, hready⟩
    · intro len' hlen'
      obtain rfl : frameLen c.hdr = len' := Option.some.inj (hlen.symm.trans hlen')
      exact ⟨hhdr, hver, rfl, hmax, hlt.le⟩
    · simp only [Recv.taken, List.append_assoc] at hmoved ⊢
      rw [hmoved]

theorem Progress.of_suffix {stream : Bytes} {s s₁ : Source} {r : RecvResult × Recv × Source}
    (h : Progress stream s₁ r) (hsuff : s₁.ready <:+ s.ready) : Progress stream s r := by
  obtain ⟨r, c, s'⟩ := r
  cases r with
  | more => exact ⟨h.1, h.2.1, h.2.2.trans hsuff⟩
  | close => exact h
  | done => exact h
  | badVer => exact h
  | tooLarge => exact h
  | badFrame => exact h

/-- A call that does not ask for more has classified the stream. -/
theorem Progress.classified {stream : Bytes} {s : Source} {r : RecvResult × Recv × Source}
    (h : Progress stream s r) (hne : r.1 ≠ .more) :
    r.1 = (classify stream).1.result ∧ r.2.2.stream = (classify stream).2 ∧
      ∀ body, (classify stream).1 = .complete body →
        r.2.1.body = body ∧ r.2.1.bodyLen = some (UInt32.ofNat body.length) := by
  obtain ⟨r, c, s'⟩ := r
  cases r with
  | more => exact absurd rfl hne
  | close => exact h
  | done => exact h
  | badVer => exact h
  | tooLarge => exact h
  | badFrame => exact h

/-- One call of the non-blocking receiver. -/
theorem progress_connDoRecv {c : Recv} {s : Source} (hc : c.Ok) (hfail : .fail ∉ s.ready) :
    Progress (c.taken ++ s.stream) s (connDoRecv c s) := by
  unfold connDoRecv
  cases hlen : c.bodyLen with
  | some len =>
    rw [fill_of_length_eq (hc.header len hlen).1]
    have hself : { c with hdr := c.hdr, bodyLen := some len } = c := by rw [← hlen]
    simpa only [hself] using progress_recvBody hc hlen hfail
  | none =>
    have htaken : c.taken = c.hdr := by rw [Recv.taken, hc.body_eq_nil hlen, List.append_nil]
    have hf := filled_fill hc.hdr_le s
    rcases hfill : fill headerSize c.hdr s with ⟨r, hdr, s₁⟩
    rw [hfill] at hf
    have hcases := hf.cases hfail
    have hmoved : hdr ++ s₁.stream = c.hdr ++ s.stream := hf.moved
    have hready : s₁.ready <:+ s.ready := hf.ready
    rw [htaken]
    obtain ⟨rfl, -, -, -⟩ | ⟨rfl, hlt, hrest⟩ | ⟨rfl, -, hlt, -⟩ := hcases
    · have hlen₁ : hdr.length = headerSize := hf.full_iff.mp rfl
      have hclass := classify_append hlen₁ s₁.stream
      rw [← hmoved]
      simp only
      by_cases hver : hdr.getD 0 0 ≠ protoVersion
      · rw [if_pos hver] at hclass ⊢
        exact ⟨by rw [hclass]; rfl, by rw [hclass], by simp [hclass]⟩
      rw [if_neg hver] at hclass ⊢
      by_cases hmax : maxBody < frameLen hdr
      · rw [if_pos hmax] at hclass ⊢
        exact ⟨by rw [hclass]; rfl, by rw [hclass], by simp [hclass]⟩
      rw [if_neg hmax]
      have hc₁ : Recv.Ok { c with hdr, bodyLen := some (frameLen hdr) } := by
        refine ⟨hlen₁.le, by simp, ?_⟩
        intro len hsome
        obtain rfl : frameLen hdr = len := Option.some.inj hsome
        exact ⟨hlen₁, not_not.mp hver, rfl, hmax, by simp [hc.body_eq_nil hlen]⟩
      have hprog := progress_recvBody hc₁ rfl fun h => hfail (hready.subset h)
      have htaken₁ : Recv.taken { c with hdr, bodyLen := some (frameLen hdr) } = hdr := by
        rw [Recv.taken, hc.body_eq_nil hlen, List.append_nil]
      rw [htaken₁] at hprog
      exact hprog.of_suffix hready
    · rw [← hmoved, hrest, List.append_nil] at hlt ⊢
      have hclass := classify_of_lt hlt
      exact ⟨by rw [hclass]; rfl, by rw [hclass]; exact hrest, by simp [hclass]⟩
    · refine ⟨⟨hlt.le, fun _ => hc.body_eq_nil hlen, by simp⟩, ?_, hready⟩
      rw [Recv.taken, hc.body_eq_nil hlen, List.append_nil, hmoved]

/-- The non-blocking receiver computes the classification when it is called until it needs no more,
whatever its reads deliver and however often they would have blocked. -/
theorem driveRecv_eq {c : Recv} {s : Source} (hc : c.Ok) (hfail : .fail ∉ s.ready) :
    (driveRecv c s).1 = (classify (c.taken ++ s.stream)).1.result ∧
      (driveRecv c s).2.2.stream = (classify (c.taken ++ s.stream)).2 ∧
      ∀ body, (classify (c.taken ++ s.stream)).1 = .complete body →
        (driveRecv c s).2.1.body = body ∧
        (driveRecv c s).2.1.bodyLen = some (UInt32.ofNat body.length) := by
  induction hb : s.budget using Nat.strong_induction_on generalizing c s with
  | _ k ih =>
    subst hb
    have hprog := progress_connDoRecv hc hfail
    rw [driveRecv]
    split
    · rename_i c' s' hcall
      rw [hcall] at hprog
      obtain ⟨hc', hsame, hready⟩ := hprog
      rw [← hsame]
      exact ih _ (budget_lt_of_connDoRecv hcall) hc' (fun h => hfail (hready.subset h)) rfl
    · rename_i hne
      refine hprog.classified fun hmore => ?_
      exact hne _ _ (Prod.ext hmore rfl)

/-! ## Senders -/

/-- A frame. -/
def wireFrame (body : Bytes) : Bytes := frameHeader (UInt32.ofNat body.length) ++ body

section Senders

variable {body : Bytes}

theorem toNat_ofNat_length (h : body.length ≤ maxBody.toNat) :
    (UInt32.ofNat body.length).toNat = body.length := by
  have hmax : maxBody.toNat = 65536 := by decide
  rw [UInt32.toNat_ofNat']
  exact Nat.mod_eq_of_lt (by omega)

theorem not_maxBody_lt (h : body.length ≤ maxBody.toNat) :
    ¬maxBody < UInt32.ofNat body.length := by
  rw [UInt32.lt_iff_toNat_lt, toNat_ofNat_length h]
  exact not_lt.mpr h

/-- A frame at the beginning of a stream is recognised. -/
theorem classify_wireFrame (h : body.length ≤ maxBody.toNat) (rest : Bytes) :
    classify (wireFrame body ++ rest) = (.complete body, rest) := by
  have hlen : frameLen (frameHeader (UInt32.ofNat body.length)) = UInt32.ofNat body.length := by
    simpa using frameLen_frameHeader (UInt32.ofNat body.length) []
  rw [wireFrame, List.append_assoc, classify_append rfl, hlen, toNat_ofNat_length h,
    if_neg (by simp [frameHeader]), if_neg (not_maxBody_lt h), if_neg (by simp),
    List.take_left, List.drop_left]

/-- On a blocking descriptor everything is written, whatever the single writes take. -/
theorem rabWriteFull_eq (buf : Bytes) {d : Drain} (hfail : .fail ∉ d.ready)
    (hagain : .again ∉ d.ready) :
    ∃ ready, ready <:+ d.ready ∧ rabWriteFull buf d = (true, ⟨d.sent ++ buf, ready⟩) := by
  have hf := flushed_flush buf d
  unfold rabWriteFull
  rcases hflush : flush buf d with ⟨r, out, d'⟩
  rw [hflush] at hf
  cases r with
  | done =>
    have hmoved : d'.sent ++ out = d.sent ++ buf := hf.moved
    have hout : out = [] := hf.done_iff.mp rfl
    rw [hout, List.append_nil] at hmoved
    exact ⟨d'.ready, hf.ready, by rw [← hmoved]⟩
  | again => exact absurd (hf.again rfl) hagain
  | fail => exact absurd (hf.fail rfl) hfail

theorem rabWriteFrame_eq {d : Drain} (h : body.length ≤ maxBody.toNat) (hfail : .fail ∉ d.ready)
    (hagain : .again ∉ d.ready) :
    ∃ ready, rabWriteFrame body (UInt32.ofNat body.length) d =
      (true, ⟨d.sent ++ wireFrame body, ready⟩) := by
  obtain ⟨ready, hsuff, hhdr⟩ :=
    rabWriteFull_eq (frameHeader (UInt32.ofNat body.length)) hfail hagain
  rw [rabWriteFrame, if_neg (not_maxBody_lt h), hhdr]
  by_cases hpos : 0 < UInt32.ofNat body.length
  · obtain ⟨ready', -, hbody⟩ := rabWriteFull_eq body
      (d := ⟨d.sent ++ frameHeader (UInt32.ofNat body.length), ready⟩)
      (fun hmem => hfail (hsuff.subset hmem)) (fun hmem => hagain (hsuff.subset hmem))
    rw [toNat_ofNat_length h, List.take_length]
    exact ⟨ready', by simp only [hpos, if_true, hbody, wireFrame, List.append_assoc]⟩
  · have hnil : body = [] := by
      rw [UInt32.lt_iff_toNat_lt, toNat_ofNat_length h] at hpos
      exact List.length_eq_zero_iff.mp (by simpa using hpos)
    subst hnil
    exact ⟨ready, by simp [wireFrame]⟩

theorem connQueueResponse_eq (h : body.length ≤ maxBody.toNat) (hnul : 0 ∉ body) :
    connQueueResponse (some body) = some (wireFrame body) := by
  have hlen : UInt64.ofNat body.length = (UInt32.ofNat body.length).toUInt64 := by
    apply UInt64.toNat_inj.mp
    have hmax : maxBody.toNat = 65536 := by decide
    rw [UInt32.toNat_toUInt64, toNat_ofNat_length h, UInt64.toNat_ofNat']
    exact Nat.mod_eq_of_lt (by omega)
  rw [connQueueResponse, Option.bind_some, cstr_eq_self hnul, if_neg (not_lt.mpr h), hlen,
    queueHeader_toUInt64, wireFrame]

end Senders

/-- The incremental receiver equals the blocking one, and the senders agree with both.  Over every
stream that ends and every splitting of it, `conn_do_recv` called until it stops asking for more and
`rab_read_frame` come to the same of the five classes, with the same body and length, and leave the
same rest of the stream, having used at most one frame.  The two senders produce the same octets,
and either receiver decodes them to the body. -/
theorem receivers_equal :
    (∀ (stream : Bytes) (reads blocking : List Ready), .fail ∉ reads → .fail ∉ blocking →
      .again ∉ blocking →
      (driveRecv {} ⟨stream, reads⟩).1 = (classify stream).1.result ∧
      (rabReadFrame ⟨stream, blocking⟩).1 = (classify stream).1.status ∧
      (∀ body len, (rabReadFrame ⟨stream, blocking⟩).1 = .ok body len →
        (driveRecv {} ⟨stream, reads⟩).2.1.body = body ∧
        (driveRecv {} ⟨stream, reads⟩).2.1.bodyLen = some len) ∧
      (driveRecv {} ⟨stream, reads⟩).2.2.stream = (rabReadFrame ⟨stream, blocking⟩).2.stream ∧
      ∃ used, stream = used ++ (rabReadFrame ⟨stream, blocking⟩).2.stream ∧
        (used.length ≤ headerSize ∨
          frameLen used ≤ maxBody ∧ used.length ≤ headerSize + (frameLen used).toNat)) ∧
    ∀ body : Bytes, body.length ≤ maxBody.toNat →
      (∀ writes : List Ready, .fail ∉ writes → .again ∉ writes →
        ∃ ready, rabWriteFrame body (UInt32.ofNat body.length) ⟨[], writes⟩ =
          (true, ⟨wireFrame body, ready⟩)) ∧
      (0 ∉ body → connQueueResponse (some body) = some (wireFrame body)) ∧
      ∀ (rest : Bytes) (reads blocking : List Ready), .fail ∉ reads → .fail ∉ blocking →
        .again ∉ blocking →
        (driveRecv {} ⟨wireFrame body ++ rest, reads⟩).1 = .done ∧
        (driveRecv {} ⟨wireFrame body ++ rest, reads⟩).2.1.body = body ∧
        (driveRecv {} ⟨wireFrame body ++ rest, reads⟩).2.2.stream = rest ∧
        (rabReadFrame ⟨wireFrame body ++ rest, blocking⟩).1 =
          .ok body (UInt32.ofNat body.length) ∧
        (rabReadFrame ⟨wireFrame body ++ rest, blocking⟩).2.stream = rest := by
  constructor
  · intro stream reads blocking hreads hfail hagain
    obtain ⟨hres, hrest, hbody⟩ := driveRecv_eq (s := ⟨stream, reads⟩) Recv.Ok.empty hreads
    obtain ⟨hstatus, hrest'⟩ := rabReadFrame_eq (s := ⟨stream, blocking⟩) hfail hagain
    simp only [Recv.taken, List.nil_append] at hres hrest hbody hstatus hrest'
    refine ⟨hres, hstatus, ?_, by rw [hrest, hrest'], ?_⟩
    · intro body len hok
      rw [hstatus] at hok
      cases hclass : (classify stream).1 with
      | complete b =>
        rw [hclass] at hok
        obtain ⟨rfl, rfl⟩ := FrameStatus.ok.inj hok
        exact hbody b hclass
      | badVersion => simp [hclass, FrameClass.status] at hok
      | tooLarge => simp [hclass, FrameClass.status] at hok
      | eofHeader => simp [hclass, FrameClass.status] at hok
      | eofBody => simp [hclass, FrameClass.status] at hok
    · rw [hrest']
      exact classify_oneFrame stream
  · intro body hlen
    refine ⟨fun writes hfail hagain => ?_, connQueueResponse_eq hlen, ?_⟩
    · simpa using rabWriteFrame_eq (d := ⟨[], writes⟩) hlen hfail hagain
    · intro rest reads blocking hreads hfail hagain
      obtain ⟨hres, hrest, hbody⟩ :=
        driveRecv_eq (s := ⟨wireFrame body ++ rest, reads⟩) Recv.Ok.empty hreads
      obtain ⟨hstatus, hrest'⟩ :=
        rabReadFrame_eq (s := ⟨wireFrame body ++ rest, blocking⟩) hfail hagain
      simp only [Recv.taken, List.nil_append, classify_wireFrame hlen] at hres hrest hbody
      rw [classify_wireFrame hlen] at hstatus hrest'
      exact ⟨hres, (hbody body rfl).1, hrest, hstatus, hrest'⟩

/-- A frame that arrives in pieces, with an interruption and two waits in between. -/
theorem receivers_equal_pieces :
    (driveRecv {} ⟨wireFrame (lit "ping"), [.data 2, .again, .intr, .data 0, .again]⟩).1 = .done ∧
      (rabReadFrame ⟨wireFrame (lit "ping"), [.intr, .data 6]⟩).1 = .ok (lit "ping") 4 := by
  obtain ⟨hdone, -, -, hok, -⟩ := (receivers_equal.2 (lit "ping") (by decide)).2.2 []
    [.data 2, .again, .intr, .data 0, .again] [.intr, .data 6] (by decide) (by decide) (by decide)
  rw [List.append_nil] at hdone hok
  exact ⟨hdone, hok⟩

end AuditBroker
