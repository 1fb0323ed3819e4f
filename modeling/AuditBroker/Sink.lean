import AuditBroker.Record

/-!
# Files and the sink writer

The directory of the sink, the system calls that the broker makes on it, and `sink.c` over them.
Files are named by their name in the sink's directory; a name refers to an inode, so that a hard
link shares the content and a rename moves a name.

Every call asks the environment of the current event for its outcome.  A failing write may leave an
initial part of its bytes behind.  `killAt` ends the process before the call of that number: from
then on no call has an effect.  An unsynced tail that a crash loses is the same as a write that only
landed so far, so bytes that were written stay.  A rename stays uncertain until the directory is
synced: `Fs.undo` is the directory that a crash may bring back, and `Fs.stale` the one from before a
rename that an earlier process left uncertain.
-/

namespace AuditBroker

open Foundation

/-! ## Files -/

/-- What a name in the directory refers to. -/
inductive FileKind where
  | regular
  | symlink
  | directory
  | other
  deriving DecidableEq, Repr

/-- A file. -/
structure Inode where
  bytes : Bytes
  kind : FileKind
  owner : UInt32
  worldWritable : Bool

/-- The sink's directory. -/
structure Fs where
  /-- Names and the inodes they refer to. -/
  dir : List (Bytes × ℕ)
  /-- The content of an inode. -/
  node : ℕ → Inode
  /-- The first unused inode. -/
  next : ℕ
  /-- The directory before a rename that is not durable yet. -/
  undo : Option (List (Bytes × ℕ))
  /-- The directory before a rename that was not durable when the broker was last started, and is not
  durable yet. -/
  stale : Option (List (Bytes × ℕ)) := none

namespace Fs

/-- The inode that a name refers to. -/
def lookup (fs : Fs) (name : Bytes) : Option ℕ := (fs.dir.find? fun e => e.1 == name).map Prod.snd

/-- Create an empty file under an unused name. -/
def create (fs : Fs) (name : Bytes) (owner : UInt32) : Fs :=
  { fs with
    dir := fs.dir ++ [(name, fs.next)]
    node := Function.update fs.node fs.next
      { bytes := [], kind := .regular, owner, worldWritable := false }
    next := fs.next + 1 }

/-- Append to a file. -/
def extend (fs : Fs) (i : ℕ) (b : Bytes) : Fs :=
  { fs with node := Function.update fs.node i { fs.node i with bytes := (fs.node i).bytes ++ b } }

/-- Cut a file. -/
def truncate (fs : Fs) (i len : ℕ) : Fs :=
  { fs with node := Function.update fs.node i { fs.node i with bytes := (fs.node i).bytes.take len } }

/-- Remove a name. -/
def remove (fs : Fs) (name : Bytes) : Fs := { fs with dir := fs.dir.filter fun e => e.1 != name }

/-- Give a file a further name. -/
def addName (fs : Fs) (name : Bytes) (i : ℕ) : Fs := { fs with dir := fs.dir ++ [(name, i)] }

/-- Move a name over another; not durable until the directory is synced.  Where both are names of one
file nothing happens. -/
def move (fs : Fs) (src dst : Bytes) (i : ℕ) : Fs :=
  if fs.lookup dst = some i then fs
  else
    { fs with
      dir := (fs.dir.filter fun e => e.1 != src && e.1 != dst) ++ [(dst, i)]
      undo := some fs.dir }

/-- The directory is synced. -/
def synced (fs : Fs) : Fs := { fs with undo := none, stale := none }

end Fs

/-! ## System calls -/

/-- The system calls whose failure the broker sees. -/
inductive Call where
  | openExcl
  | fchmod
  | openExisting
  | fstat
  | fsyncDir
  | flock
  | write
  | writeNewline
  | fdatasync
  | unlink
  | link
  | rename
  | opendir
  | lstat
  | openRead
  | read
  | openTrunc
  | ftruncate
  | fsync
  deriving DecidableEq, Repr

/-- The outcome of a call.  A write that fails may have written an initial part of its bytes. -/
inductive Io where
  | ok
  | fail (landed : ℕ)
  deriving DecidableEq, Repr

/-- What the environment provides during one event. -/
structure Env where
  /-- The readings of the wall clock, in order. -/
  clock : ℕ → UInt64
  /-- The outcome of a call, by its number within the event. -/
  io : Call → ℕ → Io
  /-- The process is killed before the call of this number. -/
  killAt : Option ℕ
  /-- Free bytes as `statvfs` reports them: before the request's own line, and before the line of
  a receipt that it issues. -/
  free : ℕ → Option UInt64
  /-- The time of a correlation id. -/
  cidTime : Option UInt64
  /-- The random octets of a correlation id. -/
  cidRandom : Option (Vector UInt8 8)
  /-- The random octets of a binding. -/
  bindingRandom : Option (Vector UInt8 16)
  /-- The random octets of a receipt token, by attempt. -/
  tokenRandom : ℕ → Option (Vector UInt8 16)
  /-- Does the digest library succeed?  By attempt; redemption uses the first two. -/
  digestOk : ℕ → Bool
  /-- `CLOCK_BOOTTIME`. -/
  boottime : Option UInt64
  /-- The boot id. -/
  bootid : Option (Buf bootIdMax)
  /-- `gethostname`. -/
  hostname : Option Bytes

/-- What a broker process can change outside its own memory. -/
structure World where
  fs : Fs
  /-- Calls made during this event. -/
  calls : ℕ

/-- Has the process been killed? -/
def Env.dead (E : Env) (calls : ℕ) : Bool :=
  match E.killAt with
  | some k => k ≤ calls
  | none => false

/-- The outcome of the next call. -/
def Env.outcome (E : Env) (c : Call) (w : World) : Io :=
  if E.dead w.calls then .fail 0 else E.io c w.calls

namespace World

/-- Count a call. -/
def tick (w : World) : World := { w with calls := w.calls + 1 }

/-- Count a call that changed the directory. -/
def tickFs (w : World) (fs : Fs) : World := { fs, calls := w.calls + 1 }

/-- A call that only succeeds or fails. -/
def plain (E : Env) (c : Call) (w : World) : Bool × World := (E.outcome c w == .ok, w.tick)

/-- `unlink`. -/
def unlink (E : Env) (name : Bytes) (w : World) : Bool × World :=
  match E.outcome .unlink w, w.fs.lookup name with
  | .ok, some _ => (true, w.tickFs (w.fs.remove name))
  | _, _ => (false, w.tick)

/-- `link`: it fails when the new name is taken. -/
def link (E : Env) (src dst : Bytes) (w : World) : Bool × World :=
  match E.outcome .link w, w.fs.lookup src, w.fs.lookup dst with
  | .ok, some i, none => (true, w.tickFs (w.fs.addName dst i))
  | _, _, _ => (false, w.tick)

/-- `rename`. -/
def rename (E : Env) (src dst : Bytes) (w : World) : Bool × World :=
  match E.outcome .rename w, w.fs.lookup src with
  | .ok, some i => (true, w.tickFs (w.fs.move src dst i))
  | _, _ => (false, w.tick)

/-- `rab_fsync_parent_dir`: renames before it are durable. -/
def rabFsyncParentDir (E : Env) (w : World) : Bool × World :=
  match E.outcome .fsyncDir w with
  | .ok => (true, w.tickFs w.fs.synced)
  | .fail _ => (false, w.tick)

/-- Write bytes at the end of a file. -/
def write (E : Env) (c : Call) (i : ℕ) (b : Bytes) (w : World) : Bool × World :=
  match E.outcome c w with
  | .ok => (true, w.tickFs (w.fs.extend i b))
  | .fail k => (false, w.tickFs (w.fs.extend i (b.take k)))

/-! ## The sink writer -/

/-- What `rab_sink_append` leaves behind.  It returns 0 for `durable` and -1 for the other two, which
the caller cannot tell apart: the whole line and its newline are in the file, or they are not. -/
inductive Append where
  | durable
  | landed
  | torn
  deriving DecidableEq, Repr

/-- `rab_sink_append`: one line, its newline, then `fdatasync`. -/
def rabSinkAppend (E : Env) (i : ℕ) (line : Bytes) (w : World) : Append × World :=
  if line.contains 10 then (.torn, w)
  else
    match plain E .flock w with
    | (false, w) => (.torn, w)
    | (true, w) =>
      match write E .write i line w with
      | (false, w) => (.torn, w)
      | (true, w) =>
        match E.outcome .writeNewline w, write E .writeNewline i [10] w with
        | .fail 0, (_, w) => (.torn, w)
        | .fail (_ + 1), (_, w) => (.landed, w)
        | .ok, (_, w) =>
          match plain E .fdatasync w with
          | (false, w) => (.landed, w)
          | (true, w) => (.durable, w)

/-- `rab_sink_open`: the inode to append to, created if the name is unused.  A symbolic link or a
world-writable file is refused. -/
def rabSinkOpen (E : Env) (euid : UInt32) (name : Bytes) (w : World) : Option ℕ × World :=
  match E.outcome .openExcl w, w.fs.lookup name with
  | .fail _, _ => (none, w.tick)
  | .ok, none =>
    let i := w.fs.next
    let w := w.tickFs (w.fs.create name euid)
    match plain E .fchmod w with
    | (false, w) => (none, w)
    | (true, w) =>
      match plain E .fstat w with
      | (false, w) => (none, w)
      | (true, w) =>
        match rabFsyncParentDir E w with
        | (false, w) => (none, w)
        | (true, w) => (some i, w)
  | .ok, some i =>
    match plain E .openExisting w.tick with
    | (false, w) => (none, w)
    | (true, w) =>
      if (w.fs.node i).kind ≠ .regular then (none, w)
      else
        match plain E .fstat w with
        | (false, w) => (none, w)
        | (true, w) => if (w.fs.node i).worldWritable then (none, w) else (some i, w)

end World

end AuditBroker
