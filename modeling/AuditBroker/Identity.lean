import AuditBroker.Foundation.JsonText
import AuditBroker.RoundTrip

/-!
# Identities that are read back

The integers of a JSON text have 64 bits, the identifiers of a record 32.  The reader checks signs
before it casts, but only the `actor_uid` of a receipt is compared with its cast.  `Stored.Faithful`
says that the identifiers which the reader returns are the integers of the line; it holds exactly when
these integers fit their types (`faithful_iff_inRange`).
-/

namespace AuditBroker

open Foundation

/-! ## What a line says -/

/-- The members of `broker.peer`. -/
def brokerPeer? (ms : Members) : Option Members :=
  ((member? ms "broker").bind Json.members?).bind fun brk =>
    (member? brk "peer").bind Json.members?

/-- An integer of `broker.peer`. -/
def peerInt? (ms : Members) (key : String) : Option ℤ :=
  (brokerPeer? ms).bind fun peer => int? (member? peer key)

/-- The ids of an actor are the integers of `broker.peer`, and the pid is positive. -/
def Actor.IsPeerOf (a : Actor) (ms : Members) : Prop :=
  peerInt? ms "uid" = some (a.uid.toNat : ℤ) ∧ peerInt? ms "gid" = some (a.gid.toNat : ℤ) ∧
    peerInt? ms "pid" = some a.pid.toInt ∧ 0 < a.pid.toInt

instance (a : Actor) (ms : Members) : Decidable (a.IsPeerOf ms) :=
  inferInstanceAs (Decidable (_ ∧ _ ∧ _ ∧ _))

/-- The identifiers that were read are the integers of the line.  In an audit record the top-level pid
and actor are those of `broker.peer`. -/
def Stored.Faithful (ms : Members) : Stored → Prop
  | .audit s _ => s.actor.IsPeerOf ms ∧ int? (member? ms "pid") = peerInt? ms "pid" ∧
    str? (member? ms "actor") = (peerInt? ms "uid").map fun u => lit "uid:" ++ decimal u.toNat
  | .checkpoint s => s.actor.IsPeerOf ms
  | .rate uid _ => int? (member? ms "uid") = some (uid.toNat : ℤ)
  | .receipt _ _ r => int? (member? ms "actor_uid") = some (r.actorUid.toNat : ℤ)

instance (ms : Members) (st : Stored) : Decidable (st.Faithful ms) :=
  match st with
  | .audit _ _ => inferInstanceAs (Decidable (_ ∧ _ ∧ _))
  | .checkpoint _ => inferInstanceAs (Decidable (_ ∧ _ ∧ _ ∧ _))
  | .rate _ _ => inferInstanceAs (Decidable (_ = _))
  | .receipt _ _ _ => inferInstanceAs (Decidable (_ = _))

/-- The integers of `broker.peer` are within `uid_t`, `gid_t` and `pid_t`. -/
def PeerInRange (ms : Members) : Prop :=
  (∀ u, peerInt? ms "uid" = some u → u < 2 ^ 32) ∧
    (∀ g, peerInt? ms "gid" = some g → g < 2 ^ 32) ∧ ∀ p, peerInt? ms "pid" = some p → p < 2 ^ 31

/-- The integers of a record that the reader does not compare with their casts are within their
types. -/
def Stored.InRange (ms : Members) : Stored → Prop
  | .audit _ _ => PeerInRange ms ∧
    ∀ p, int? (member? ms "pid") = some p → -2 ^ 31 ≤ p ∧ p < 2 ^ 31
  | .checkpoint _ => PeerInRange ms
  | .rate _ _ => ∀ u, int? (member? ms "uid") = some u → u < 2 ^ 32
  | .receipt _ _ _ => True

/-! ## Casts -/

theorem toNat_castUid_eq_iff {n : ℤ} (h : 0 ≤ n) : n = (castUid n).toNat ↔ n < 2 ^ 32 := by
  have hcast : ((castUid n).toNat : ℤ) = n % 2 ^ 32 := by
    rw [castUid, UInt32.toNat_ofNat', Nat.mod_eq_of_lt (by omega)]
    omega
  rw [hcast]
  omega

theorem toInt_castPid_eq_iff {n : ℤ} : n = (castPid n).toInt ↔ -2 ^ 31 ≤ n ∧ n < 2 ^ 31 := by
  constructor
  · intro h
    rw [h]
    exact ⟨Int32.le_toInt _, Int32.toInt_lt _⟩
  · rintro ⟨hle, hlt⟩
    exact (Int32.toInt_ofInt_of_le hle hlt).symm

/-! ## The reader -/

section Reader

variable {ms brk : Members} {a : Actor} {st : Stored}

/-- The ids of a peer are cast after their signs are checked. -/
theorem loadPeerStrict_eq_some (h : loadPeerStrict brk = some a) :
    ∃ peer u g p, member? brk "peer" = some (.obj peer) ∧ int? (member? peer "uid") = some u ∧
      int? (member? peer "gid") = some g ∧ int? (member? peer "pid") = some p ∧
      0 ≤ u ∧ 0 ≤ g ∧ 0 < p ∧ a.uid = castUid u ∧ a.gid = castUid g ∧ a.pid = castPid p := by
  unfold loadPeerStrict at h
  obtain ⟨peer, hpeer, h⟩ := Option.bind_eq_some_iff.mp h
  obtain ⟨v, hv, hobj⟩ := Option.bind_eq_some_iff.mp hpeer
  cases v <;> simp only [Json.members?, reduceCtorEq, Option.some.injEq] at hobj
  subst hobj
  split at h
  · cases h
  obtain ⟨u, hu, h⟩ := Option.bind_eq_some_iff.mp h
  obtain ⟨g, hg, h⟩ := Option.bind_eq_some_iff.mp h
  obtain ⟨p, hp, h⟩ := Option.bind_eq_some_iff.mp h
  obtain ⟨bootId, -, h⟩ := Option.bind_eq_some_iff.mp h
  obtain ⟨starttime, -, h⟩ := Option.bind_eq_some_iff.mp h
  split at h
  · cases h
  rename_i hsigns
  split at h
  · cases h
  cases h
  simp only [not_or, not_lt, not_le] at hsigns
  exact ⟨_, u, g, p, hv, hu, hg, hp, hsigns.1, hsigns.2.1, hsigns.2.2, rfl, rfl, rfl⟩

/-- The ids of a peer are the integers of the line exactly when these are in range. -/
theorem isPeerOf_iff (hbrk : member? ms "broker" = some (.obj brk))
    (h : loadPeerStrict brk = some a) :
    (a.IsPeerOf ms ↔ PeerInRange ms) ∧ ∃ u p, peerInt? ms "uid" = some u ∧
      peerInt? ms "pid" = some p ∧ 0 ≤ u ∧ 0 < p ∧ a.uid = castUid u ∧ a.pid = castPid p := by
  obtain ⟨peer, u, g, p, hpeer, hu, hg, hp, hu0, hg0, hp0, huid, hgid, hpid⟩ :=
    loadPeerStrict_eq_some h
  have hread : ∀ key, peerInt? ms key = int? (member? peer key) := by
    intro key
    simp [peerInt?, brokerPeer?, hbrk, hpeer, Json.members?]
  rw [← hread] at hu hg hp
  refine ⟨?_, u, p, hu, hp, hu0, hp0, huid, hpid⟩
  have hrange : PeerInRange ms ↔ u < 2 ^ 32 ∧ g < 2 ^ 32 ∧ p < 2 ^ 31 := by
    simp [PeerInRange, hu, hg, hp]
  have hpos : p = (castPid p).toInt ∧ 0 < (castPid p).toInt ↔ p < 2 ^ 31 := by
    constructor
    · rintro ⟨heq, -⟩
      exact (toInt_castPid_eq_iff.mp heq).2
    · intro hlt
      have heq := toInt_castPid_eq_iff.mpr ⟨by omega, hlt⟩
      exact ⟨heq, heq ▸ hp0⟩
  rw [hrange, Actor.IsPeerOf, hu, hg, hp, huid, hgid, hpid, Option.some_inj, Option.some_inj,
    Option.some_inj, toNat_castUid_eq_iff hu0, toNat_castUid_eq_iff hg0, hpos]

/-- The top-level pid and actor of an audit record whose peer is in range: the actor is right, and the
pid is right exactly when it is in range too. -/
theorem top_level_iff {u p : ℤ} (hu : peerInt? ms "uid" = some u) (hp : peerInt? ms "pid" = some p)
    (hu0 : 0 ≤ u) (hp0 : 0 < p) (hrange : PeerInRange ms)
    (hpid : (int? (member? ms "pid")).map castPid = some (castPid p))
    (hactor : str? (member? ms "actor") = some (actorText (castUid u))) :
    (int? (member? ms "pid") = peerInt? ms "pid" ∧
      str? (member? ms "actor") = (peerInt? ms "uid").map fun u => lit "uid:" ++ decimal u.toNat) ↔
      ∀ q, int? (member? ms "pid") = some q → -2 ^ 31 ≤ q ∧ q < 2 ^ 31 := by
  obtain ⟨hulim, -, hplim⟩ := hrange
  have hp32 : -2 ^ 31 ≤ p ∧ p < 2 ^ 31 := ⟨by omega, hplim p hp⟩
  have htext : str? (member? ms "actor") =
      (peerInt? ms "uid").map fun u => lit "uid:" ++ decimal u.toNat := by
    have heq := (toNat_castUid_eq_iff hu0).mpr (hulim u hu)
    have hnat : u.toNat = (castUid u).toNat := by omega
    rw [hactor, hu, Option.map_some, actorText, hnat]
  obtain ⟨q, hq, hcast⟩ := Option.map_eq_some_iff.mp hpid
  rw [and_iff_left htext, hq, hp, Option.some_inj]
  constructor
  · rintro rfl q' ⟨⟩
    exact hp32
  · intro h
    calc q = (castPid q).toInt := toInt_castPid_eq_iff.mpr (h q rfl)
      _ = (castPid p).toInt := by rw [hcast]
      _ = p := (toInt_castPid_eq_iff.mpr hp32).symm

/-- Audit and checkpoint records. -/
theorem faithful_iff_of_parseIntent {isAudit : Bool} (h : parseIntent ms isAudit = some st) :
    st.Faithful ms ↔ st.InRange ms := by
  obtain ⟨s, brk, hbrk, -, -, hactor, -, hkind⟩ := parseIntent_eq_some h
  obtain ⟨hpeer, u, p, hu, hp, hu0, hp0, huid, hpid⟩ := isPeerOf_iff hbrk hactor
  rcases hkind with ⟨-, ⟨phase, rfl, -⟩, htop, htext⟩ | ⟨-, rfl, -⟩
  · simp only [Stored.Faithful, Stored.InRange, hpeer]
    rw [hpid] at htop
    rw [huid] at htext
    exact and_congr_right fun hrange => top_level_iff hu hp hu0 hp0 hrange htop htext
  · exact hpeer

theorem faithful_iff_of_parseRate (h : parseRate ms = some st) :
    st.Faithful ms ↔ st.InRange ms := by
  unfold parseRate at h
  obtain ⟨-, h⟩ := Option.ite_none_left_eq_some.mp h
  obtain ⟨uid, huid, h⟩ := Option.bind_eq_some_iff.mp h
  obtain ⟨tarr, -, h⟩ := Option.bind_eq_some_iff.mp h
  obtain ⟨barr, -, h⟩ := Option.bind_eq_some_iff.mp h
  obtain ⟨hshape, h⟩ := Option.ite_none_left_eq_some.mp h
  obtain ⟨times, -, h⟩ := Option.bind_eq_some_iff.mp h
  obtain ⟨bytes, -, rfl⟩ := Option.map_eq_some_iff.mp h
  have hpos : 0 ≤ uid := not_lt.mp fun hneg => hshape (Or.inl hneg)
  simp only [Stored.Faithful, Stored.InRange, huid, Option.some_inj, forall_eq']
  exact toNat_castUid_eq_iff hpos

/-- The uid of a receipt is compared with its cast. -/
theorem faithful_of_parseReceipt (h : parseReceipt ms = some st) :
    st.Faithful ms ∧ st.InRange ms := by
  unfold parseReceipt at h
  obtain ⟨-, h⟩ := Option.ite_none_left_eq_some.mp h
  obtain ⟨-, h⟩ := Option.ite_none_left_eq_some.mp h
  obtain ⟨cid, -, h⟩ := Option.bind_eq_some_iff.mp h
  obtain ⟨ck, -, h⟩ := Option.bind_eq_some_iff.mp h
  obtain ⟨state, -, h⟩ := Option.bind_eq_some_iff.mp h
  obtain ⟨verifier, -, h⟩ := Option.bind_eq_some_iff.mp h
  obtain ⟨auid, hauid, h⟩ := Option.bind_eq_some_iff.mp h
  obtain ⟨verb, -, h⟩ := Option.bind_eq_some_iff.mp h
  obtain ⟨resource, -, h⟩ := Option.bind_eq_some_iff.mp h
  obtain ⟨planSchema, -, h⟩ := Option.bind_eq_some_iff.mp h
  obtain ⟨planHash, -, h⟩ := Option.bind_eq_some_iff.mp h
  obtain ⟨issued, -, h⟩ := Option.bind_eq_some_iff.mp h
  obtain ⟨ttl, -, h⟩ := Option.bind_eq_some_iff.mp h
  obtain ⟨bootId, -, h⟩ := Option.bind_eq_some_iff.mp h
  obtain ⟨accepted, -, h⟩ := Option.bind_eq_some_iff.mp h
  obtain ⟨hrange, h⟩ := Option.ite_none_left_eq_some.mp h
  obtain rfl := Option.some.inj h
  simp only [not_or, not_not] at hrange
  exact ⟨by rw [Stored.Faithful, hauid, hrange.2.1], trivial⟩

end Reader

/-! ## Main result -/

/-- A line that is accepted has its identities read as the integers it holds, exactly when those
integers that the reader does not compare with their casts are within their types. -/
theorem identity_not_truncated (J : JsonCodec) (line : Bytes) (st : Stored)
    (h : rabParseStored J line = some st) :
    ∃ ms, J.loadb line = some (.obj ms) ∧ (st.Faithful ms ↔ st.InRange ms) := by
  unfold rabParseStored at h
  split at h
  swap
  · cases h
  rename_i ms hload
  refine ⟨ms, hload, ?_⟩
  split at h
  · cases h
  obtain ⟨recordType, -, h⟩ := Option.bind_eq_some_iff.mp h
  split at h
  · exact faithful_iff_of_parseIntent h
  split at h
  · exact faithful_iff_of_parseIntent h
  split at h
  · exact faithful_iff_of_parseRate h
  split at h
  · obtain ⟨hfaithful, hrange⟩ := faithful_of_parseReceipt h
    exact iff_of_true hfaithful hrange
  · cases h

namespace Sample

/-- An outcome record of a peer with the given uid and pids. -/
def outcomeMembers (uid pid topPid : ℤ) : Members :=
  [("schema_version", .int 1), ("record_type", .str (lit "audit")),
    ("correlation_id", .str (lit "00000000000001000000-0101010101010101")),
    ("phase", .str (lit "outcome")), ("pid", .int topPid), ("actor", .str (lit "uid:0")),
    ("broker", .obj [("schema_version", .int 1),
      ("peer", .obj [("uid", .int uid), ("gid", .int 0), ("pid", .int pid),
        ("boot_id", .str (lit "0f6c1e8a-5b1d-4b0e-9c37-5d1a2e3f4a5b")),
        ("starttime", .str (lit "8675309"))]),
      ("accepted_time_us", .str (lit "1000000"))])]

/-- The line of such a record. -/
def outcomeLine (uid pid topPid : ℤ) : Bytes :=
  jsonText.dumps (.obj (outcomeMembers uid pid topPid))

end Sample

/-- A record whose peer has uid `2 ^ 32` is accepted as a record of uid 0. -/
theorem wide_uid_truncated :
    jsonText.loadb (Sample.outcomeLine 4294967296 1 1) =
        some (.obj (Sample.outcomeMembers 4294967296 1 1)) ∧
      ((rabParseStored jsonText (Sample.outcomeLine 4294967296 1 1)).any fun st =>
        !decide (st.Faithful (Sample.outcomeMembers 4294967296 1 1))) = true := by
  constructor
  · exact jsonText.loadb_dumps (Sample.outcomeMembers 4294967296 1 1) (by decide +kernel)
      (by decide +kernel)
  · decide +kernel

/-- A record of the peer 0 with pid 1 is read as it is. -/
theorem identity_not_truncated_root :
    ∃ st, rabParseStored jsonText (Sample.outcomeLine 0 1 1) = some st ∧
      st.Faithful (Sample.outcomeMembers 0 1 1) := by
  have hsome : (rabParseStored jsonText (Sample.outcomeLine 0 1 1)).isSome = true := by
    decide +kernel
  obtain ⟨st, hst⟩ := Option.isSome_iff_exists.mp hsome
  obtain ⟨ms, hload, hiff⟩ := identity_not_truncated jsonText _ st hst
  have hms : some (Json.obj ms) = some (.obj (Sample.outcomeMembers 0 1 1)) := by
    rw [← hload]
    exact jsonText.loadb_dumps (Sample.outcomeMembers 0 1 1) (by decide +kernel)
      (by decide +kernel)
  cases hms
  refine ⟨st, hst, hiff.mpr ?_⟩
  have hpeer : PeerInRange (Sample.outcomeMembers 0 1 1) := by
    simp [PeerInRange, peerInt?, brokerPeer?, Sample.outcomeMembers, Json.members?, int?, Json.int?]
  cases st with
  | audit s phase =>
    exact ⟨hpeer, by simp [Sample.outcomeMembers, int?, Json.int?]⟩
  | checkpoint s => exact hpeer
  | rate uid entries => simp [Stored.InRange, Sample.outcomeMembers, int?]
  | receipt cid ck r => trivial

end AuditBroker
