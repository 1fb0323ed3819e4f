import AuditBroker.Reconstruct

/-!
# Runs

A run is a sequence of events: a request from a peer, handled by the broker process if there is one,
or a start of the broker.  A start ends a process that is still there; the process of a request may
also be killed at any system call (`Env.killAt`), and then there is no reply.  Between the events
the sink's directory stays as it is, except that a start may find a rename undone that no directory
sync had made durable.  A rename that the next start does not find undone is kept in `Fs.stale`: runs
do not undo it any more, and what a crash may still bring back is said of the state they end in.
-/

namespace AuditBroker

open Foundation

/-- An event. -/
inductive Event where
  /-- A peer sends a frame with this body. -/
  | request (env : Env) (peer : Actor) (body : Bytes)
  /-- The broker is started; `rollback` says whether an undurable rename is found undone. -/
  | start (env : Env) (cfg : Config) (rollback : Bool)

/-- What an event shows to the outside. -/
inductive Out where
  /-- No reply: there is no process, or it was killed. -/
  | silent
  /-- The reply to a request. -/
  | reply (r : Response)
  /-- The broker is running. -/
  | started
  /-- The broker refused to start. -/
  | refused (err : String)

/-- The environment of an event. -/
def Event.env : Event → Env
  | request env _ _ => env
  | start env _ _ => env

namespace St

/-- The state at the beginning of an event. -/
def begin_ (s : St) : St := { s with calls := 0, ticks := 0 }

/-- The files as a crash leaves them, under the directory `d`, without a process. -/
def crashedTo (s : St) (d : List (Bytes × ℕ)) : St :=
  { s.begin_ with
    fs := { s.fs with dir := d, undo := none }
    alive := false
    landed := none }

/-- The directory that a start finds.  It syncs no directory, so a rename that is not undone stays
uncertain. -/
def settle (s : St) (rollback : Bool) : St :=
  { s with fs := { s.fs with
      dir := if rollback then s.fs.undo.getD s.fs.dir else s.fs.dir
      undo := none
      stale := if rollback then none else s.fs.undo.or s.fs.stale } }

/-- The state after an event: a killed process is gone. -/
def finish (E : Env) (s : St) : St :=
  { s with alive := s.alive && !E.dead s.calls, seq := s.seq + 1 }

end St

/-- One event. -/
def step (S : Site) (s : St) : Event → Out × St
  | .request E peer body =>
    if s.alive then
      let r := connHandle S E peer body s.begin_
      (if E.dead r.2.calls then .silent else .reply r.1, r.2.finish E)
    else (.silent, { s with seq := s.seq + 1 })
  | .start E cfg rollback =>
    let s := { (s.begin_.settle rollback) with alive := false, landed := none }
    match rabBrokerOpen S E cfg s with
    | (some e, s) => (if E.dead s.calls then .silent else .refused e, s.finish E)
    | (none, s) => (if E.dead s.calls then .silent else .started, s.finish E)

/-- The state after a run. -/
def run (S : Site) (s : St) (evs : List Event) : St := evs.foldl (fun s ev => (step S s ev).2) s

/-- The output of the event of a given number. -/
def outAt (S : Site) (s : St) (evs : List Event) (n : ℕ) : Out :=
  match evs[n]? with
  | some ev => (step S (run S s (evs.take n)) ev).1
  | none => .silent

@[simp] theorem run_nil (S : Site) (s : St) : run S s [] = s := rfl

theorem run_concat (S : Site) (s : St) (evs : List Event) (ev : Event) :
    run S s (evs ++ [ev]) = (step S (run S s evs) ev).2 := by
  simp [run]

end AuditBroker
