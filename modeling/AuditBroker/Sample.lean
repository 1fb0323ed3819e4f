import AuditBroker.Traces
import AuditBroker.Foundation.JsonText

/-!
# A small deployment

A site, an environment without faults and requests in their wire form, with which the runs of the
later modules are made.  The environment is given by an instant and by a number from which the ids
that it mints are drawn.  `Sample.sha256` is the table of the digests that occur in those runs.
-/

namespace AuditBroker

open Foundation

deriving instance DecidableEq for Out

namespace Sample

/-! ## The site -/

/-- The token minted in the environment of number `k`. -/
def token (k : UInt8) : Bytes := toHex (List.replicate 16 (128 + k))

/-- SHA-256 of the empty string and of the first tokens. -/
def sha256 (s : Bytes) : Vector UInt8 32 :=
  if s = [] then
    #v[227, 176, 196, 66, 152, 252, 28, 20, 154, 251, 244, 200, 153, 111, 185, 36, 39, 174, 65,
      228, 100, 155, 147, 76, 164, 149, 153, 27, 120, 82, 184, 85]
  else if s = token 1 then
    #v[11, 90, 1, 8, 129, 142, 148, 159, 157, 65, 207, 65, 156, 196, 57, 164, 216, 222, 160, 161,
      244, 127, 167, 75, 173, 56, 234, 8, 78, 37, 184, 57]
  else if s = token 2 then
    #v[88, 223, 195, 249, 208, 179, 97, 162, 252, 6, 252, 177, 223, 58, 65, 45, 31, 135, 194, 129,
      172, 113, 157, 187, 50, 34, 242, 138, 201, 162, 197, 110]
  else if s = token 3 then
    #v[43, 19, 53, 134, 254, 17, 179, 227, 123, 51, 166, 156, 101, 6, 171, 65, 97, 164, 93, 125,
      162, 163, 71, 10, 179, 52, 201, 250, 15, 46, 5, 110]
  else Vector.replicate 32 0

/-- The installation. -/
def site : Site where
  codec := jsonText
  sha256 := sha256
  dirPath := some (lit "/var/log/runix")
  base := lit "audit.jsonl"
  euid := 0

/-- The default configuration with a small open-intent table. -/
def config : Config := { rabConfigDefaults with maxOpenGlobal := 16 }

/-- An empty directory. -/
def fs : Fs where
  dir := []
  node := fun _ => { bytes := [], kind := .regular, owner := 0, worldWritable := false }
  next := 0
  undo := none

theorem emptySink : EmptySink site fs where
  ok := ⟨by simp [fs], by simp [fs]⟩
  undo := rfl
  empty := by
    intro n hn
    cases hn

/-! ## Environments and peers -/

/-- A boot id. -/
def bootId : Buf bootIdMax := ⟨lit "0f6c1e8a-5b1d-4b0e-9c37-5d1a2e3f4a5b", by decide, by decide⟩

/-- No call fails; every clock shows the instant `t`. -/
def env (t : UInt64) (k : UInt8) : Env where
  clock := fun _ => t
  io := fun _ _ => .ok
  killAt := none
  free := fun _ => some ((1 : UInt64) <<< 30)
  cidTime := some t
  cidRandom := some (Vector.replicate 8 k)
  bindingRandom := some (Vector.replicate 16 k)
  tokenRandom := fun _ => some (Vector.replicate 16 (128 + k))
  digestOk := fun _ => true
  boottime := some t
  bootid := some bootId
  hostname := some (lit "host")

/-- The correlation id minted in an environment. -/
def cid (t : UInt64) (k : UInt8) : Buf cidMax :=
  (rabMakeCorrelationId (env t k)).getD (Buf.empty _)

/-- The binding minted in an environment. -/
def binding (k : UInt8) : Buf bindingMax := Buf.snprintf _ (toHex (List.replicate 16 k))

/-- The token minted in an environment, in its buffer. -/
def receipt (k : UInt8) : Buf receiptMax := Buf.snprintf _ (token k)

/-- A peer process of a uid. -/
def actor (uid : UInt32) : Actor where
  uid := uid
  gid := uid
  pid := 4321
  bootId := bootId
  starttime := ⟨lit "8675309", by decide, by decide⟩

theorem unlinksWork (t : UInt64) (k : UInt8) : (env t k).UnlinksWork := fun _ => rfl

theorem fromPeer (uid : UInt32) : (actor uid).FromPeer where
  pid_pos := by
    change 0 < (4321 : Int32).toInt
    decide
  bootId_ne_nil := by
    change lit "0f6c1e8a-5b1d-4b0e-9c37-5d1a2e3f4a5b" ≠ []
    decide
  starttime_ne_nil := by
    change lit "8675309" ≠ []
    decide
  starttime_digits := by
    change (lit "8675309").all isDigit = true
    decide

/-- In these environments unlinks work. -/
theorem unlinksRun {evs : List Event} (henv : ∀ ev ∈ evs, ∃ t k, ev.env = env t k) :
    UnlinksRun evs := by
  intro ev hev
  obtain ⟨t, k, h⟩ := henv ev hev
  rw [h]
  exact unlinksWork t k

/-- A property of the last line of a history. -/
theorem exists_last {J : List Entry} {p : Entry → Prop} [DecidablePred p]
    (h : (J.getLast?.any fun e => decide (p e)) = true) : ∃ J₁ e, J = J₁ ++ [e] ∧ p e := by
  cases he : J.getLast? with
  | none => simp [he] at h
  | some e =>
    obtain ⟨J₁, hJ⟩ := List.getLast?_eq_some_iff.mp he
    exact ⟨J₁, e, hJ, by simpa [he] using h⟩

/-! ## Requests -/

/-- A client record with the two required fields. -/
def record (operation : Bytes) (outcome : String) : Json :=
  .obj [("operation", .str operation), ("outcome", .str (lit outcome))]

/-- A plan digest. -/
def planHash : Bytes := List.replicate 64 97

/-- `open_intent`. -/
def openBody (operation : Bytes) : Bytes :=
  jsonText.dumps (.obj [("type", .str (lit "open_intent")), ("record", record operation "pending")])

/-- `open_intent` that asks for an effect receipt. -/
def effectBody (operation : Bytes) : Bytes :=
  jsonText.dumps (.obj [("type", .str (lit "open_intent")),
    ("record", record operation "pending"),
    ("effect", .obj [("required", .bool true), ("plan_schema", .int 1),
      ("plan_hash", .str planHash)])])

/-- `write_outcome` with the binding minted in the environment of number `k`; it claims that the
effect was issued. -/
def outcomeBody (k : UInt8) (operation : Bytes) : Bytes :=
  jsonText.dumps (.obj [("type", .str (lit "write_outcome")),
    ("binding", .str (toHex (List.replicate 16 k))),
    ("record", .obj [("operation", .str operation), ("outcome", .str (lit "success")),
      ("effect_issued", .bool true)])])

/-- `write_outcome` with that binding, without an effect. -/
def failureBody (k : UInt8) (operation : Bytes) : Bytes :=
  jsonText.dumps (.obj [("type", .str (lit "write_outcome")),
    ("binding", .str (toHex (List.replicate 16 k))), ("record", record operation "failure")])

/-- `emit` of a preview. -/
def emitBody (operation : Bytes) : Bytes :=
  jsonText.dumps (.obj [("type", .str (lit "emit")), ("phase", .str (lit "preview")),
    ("record", record operation "preview")])

/-- `redeem_receipt` with the token minted in the environment of number `k`. -/
def redeemBody (k : UInt8) (principal : ℤ) (operation : Bytes) : Bytes :=
  jsonText.dumps (.obj [("type", .str (lit "redeem_receipt")),
    ("effect_receipt", .str (token k)), ("principal_uid", .int principal),
    ("effect", .obj [("operation", .str operation), ("resource", .str []), ("plan_schema", .int 1),
      ("plan_hash", .str planHash)])])

/-! ## Runs -/

/-- An effect open and nothing after it. -/
def openRun : List Event :=
  [.start (env 1000000 0) config false,
    .request (env 2000000 1) (actor 1000) (effectBody (lit "install"))]

theorem freshIds_openRun : FreshIds site openRun := by decide +kernel

theorem unlinksRun_openRun : UnlinksRun openRun := by
  refine unlinksRun ?_
  simp only [openRun, List.forall_mem_cons]
  exact ⟨⟨_, _, rfl⟩, ⟨_, _, rfl⟩, by simp⟩

/-- The effect open, and an open that mints the same correlation id. -/
def collidingRun : List Event :=
  openRun ++ [.request { env 2000000 2 with cidRandom := some (Vector.replicate 8 1) } (actor 1000)
    (openBody (lit "remove"))]

end Sample

end AuditBroker
