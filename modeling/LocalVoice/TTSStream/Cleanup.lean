import LocalVoice.Lib.Run
import Mathlib.Data.Nat.Notation

/-! `_TTSStreamCleanupOwner` and `_run_tts_stream_cleanup` in `server/main.py`: the executor jobs of
    a stream, the one task that drains them and releases the leases, the callers that wait for it. A
    step is something an executor thread does, a callback of the loop, a call of the owner, or a
    section of the cleanup between two awaits.

        created ──▶ scanning ──▶ draining ──▶ releasing ──▶ ended
                     (snapshot)   └─(a future's exception)─▲

    `_finish_tts_stream_cleanup` is one `wait` of an owner of its own. -/

namespace LocalVoice.TTSStream
open LocalVoice.Lib

/-- What `executor_jobs` holds for a job: its future, `(future, started)`, or
    `(future, started, finished)`. -/
inductive Record where | bare | pair | triple
  deriving DecidableEq

/-- Where the executor thread is in `_run`. A job is `withdrawn` when its cancelled wrapper reached
    the executor before a thread took it. -/
inductive Thread where
  | queued
  | withdrawn
  | started
  | inside
  | left
  | finished (ok : Bool)
  deriving DecidableEq

/-- The asyncio wrapper that `run_in_executor` returns. -/
inductive Future where
  | pending
  | cancelled
  | result (ok : Bool)
  deriving DecidableEq

structure Job where
  record : Record
  thread : Thread
  future : Future
  deriving DecidableEq

/-- `started.is_set()`. -/
def Job.started (j : Job) : Bool :=
  match j.thread with
  | .queued | .withdrawn => false
  | .started | .inside | .left | .finished _ => true

/-- `finished.is_set()`. -/
def Job.finished (j : Job) : Bool :=
  match j.thread with
  | .finished _ => true
  | _ => false

/-- `future.done()`. -/
def Job.done (j : Job) : Bool := j.future != .pending

/-- The job is in the backend. -/
def Job.inside (j : Job) : Bool := j.thread == .inside

/-- What happens to a job. -/
inductive Move where
  | start
  | withdraw
  | read_flag
  | leave
  | finish (ok : Bool)
  | set_future
  | cancel
  deriving DecidableEq

/-- `_run` sets `started`, reads the cancel flag, is in the backend unless the flag is up, leaves
    it, and sets `finished`. The loop hears of its end later, and drops what it hears when the wrapper
    was cancelled. -/
def Job.move (flag : Bool) (j : Job) : Move → Option Job
  | .start => if j.thread = .queued then some { j with thread := .started } else none
  | .withdraw =>
    if j.thread = .queued ∧ j.future = .cancelled then some { j with thread := .withdrawn }
    else none
  | .read_flag =>
    if j.thread = .started then some { j with thread := if flag then .left else .inside } else none
  | .leave => if j.thread = .inside then some { j with thread := .left } else none
  | .finish ok => if j.thread = .left then some { j with thread := .finished ok } else none
  | .set_future =>
    match j.thread, j.future with
    | .finished ok, .pending => some { j with future := .result ok }
    | _, _ => none
  | .cancel => if j.future = .pending then some { j with future := .cancelled } else none

/-- An item of `jobs_to_drain`: which job, and whether its `finished` event comes with it. -/
structure Entry where
  job : ℕ
  finished : Bool
  deriving DecidableEq

/-- What the snapshot appends for the record at index `i`. -/
def Job.snapshot (j : Job) (i : ℕ) : List Entry :=
  match j.record with
  | .triple => if j.started then [⟨i, true⟩] else []
  | .pair => if !j.started && !j.done then [] else [⟨i, false⟩]
  | .bare => [⟨i, false⟩]

/-- How `_consume_job` ends, `none` while it waits: a cancelled future is drained, an exception is
    passed on. -/
def Job.consume (finished : Bool) (j : Job) : Option Bool :=
  if finished && !j.finished then none
  else match j.future with
    | .pending => none
    | .cancelled => some true
    | .result ok => some ok

/-- The task of `release_resources()`. -/
inductive Release where
  | scheduled
  | running
  | ended (ok : Bool)
  deriving DecidableEq

/-- Where the cleanup task is; `none` before `start()`. In `draining e rest c` the item `e` is with
    `_consume_job`, which ended as `c` says; `failed` says if an exception is on its way out. -/
inductive Phase where
  | none
  | created
  | scanning (i : ℕ) (jobs_to_drain : List Entry)
  | draining (e : Entry) (rest : List Entry) (consumed : Option Bool)
  | releasing (failed : Bool) (release : Release)
  | ended (failed : Bool)
  deriving DecidableEq

/-- The head of the drain loop, and the `finally` after it. -/
def Phase.drain : List Entry → Phase
  | [] => .releasing false .scheduled
  | e :: rest => .draining e rest .none

/-- A section of the cleanup task or of a task it started. `resume` ends an await of
    `_await_uncancellable`, by the end of the awaited task or by a cancellation of the cleanup. -/
inductive Section where
  | scan
  | consume
  | resume (cancelled : Bool)
  | release
  | release_end (ok : Bool)
  deriving DecidableEq

/-- `_run_tts_stream_cleanup`. After a cancellation `_await_uncancellable` looks at the awaited task
    and awaits it again if it is not done. -/
def Phase.step (executor_jobs : List Job) : Phase → Section → Option Phase
  | .created, .scan => some (.scanning 0 [])
  | .scanning i drain, .scan =>
    some (match executor_jobs[i]? with
      | some j => .scanning (i + 1) (drain ++ j.snapshot i)
      | .none => .drain drain)
  | .draining e rest .none, .consume =>
    (executor_jobs[e.job]?.bind (Job.consume e.finished)).map fun ok => .draining e rest (some ok)
  | .draining _ rest (some true), .resume _ => some (.drain rest)
  | .draining _ _ (some false), .resume _ => some (.releasing true .scheduled)
  | .draining e rest .none, .resume true => some (.draining e rest .none)
  | .releasing failed .scheduled, .release => some (.releasing failed .running)
  | .releasing failed .running, .release_end ok => some (.releasing failed (.ended ok))
  | .releasing failed (.ended ok), .resume _ => some (.ended (failed || !ok))
  | .releasing failed r, .resume true => some (.releasing failed r)
  | _, _ => .none

/-- A call of `wait()`. -/
inductive Waiter where
  | waiting
  | returned (completed : Bool)
  | raised
  deriving DecidableEq

/-- The owner, the cancel flag of its stream, the calls of `wait()` and how often the release
    callback ran. -/
structure Owner where
  executor_jobs : List Job
  cancel_flag : Bool
  task : Phase
  waiters : List Waiter
  releases : ℕ
  deriving DecidableEq

def Owner.init : Owner := ⟨[], false, .none, [], 0⟩

/-- `start()`: one task only. -/
def Owner.start (s : Owner) : Owner :=
  if s.task = .none then { s with task := .created } else s

inductive Act where
  | submit (r : Record)
  | raise_flag
  | job (i : ℕ) (m : Move)
  | start
  | wait
  | give_up (w : ℕ)
  | wake (w : ℕ)
  | cleanup (c : Section)
  deriving DecidableEq

/-- `give_up` is the timeout or the cancellation of a `wait()`: the task it shields goes on. A job
    is not submitted while the snapshot loop holds the event loop. -/
def Owner.step (s : Owner) : Act → Option Owner
  | .submit r =>
    match s.task with
    | .scanning _ _ => none
    | _ => some { s with executor_jobs := s.executor_jobs ++ [⟨r, .queued, .pending⟩] }
  | .raise_flag => some { s with cancel_flag := true }
  | .job i m =>
    (s.executor_jobs[i]?.bind fun j => j.move s.cancel_flag m).map fun j =>
      { s with executor_jobs := s.executor_jobs.set i j }
  | .start => some s.start
  | .wait => some { s.start with waiters := s.waiters ++ [.waiting] }
  | .give_up w =>
    if s.waiters[w]? = some .waiting then
      some { s with waiters := s.waiters.set w (.returned false) }
    else none
  | .wake w =>
    match s.waiters[w]?, s.task with
    | some .waiting, .ended failed =>
      some { s with waiters := s.waiters.set w (if failed then .raised else .returned true) }
    | _, _ => none
  | .cleanup c =>
    (s.task.step s.executor_jobs c).map fun p =>
      { s with task := p, releases := if c = .release then s.releases + 1 else s.releases }

/-! ### What the runs have to respect -/

/-- The cancel flag is up when the cleanup is started. -/
def Owner.flag_first (s : Owner) : Act → Bool
  | .start | .wait => s.task != .none || s.cancel_flag
  | _ => true

/-- Job `i` is in the backend. -/
def Owner.inside (s : Owner) (i : ℕ) : Bool := s.executor_jobs[i]?.any Job.inside

/-- `_consume_job` treats the job as drained when its thread is out of the backend, and passes an
    exception on when no job that is still to be drained is in the backend. -/
def Owner.sound (s : Owner) : Act → Bool
  | .cleanup .consume =>
    match s.task with
    | .draining e rest _ =>
      (e.finished || !s.inside e.job) &&
        (!(s.executor_jobs[e.job]?.any (·.future == .result false)) ||
          rest.all fun e' => !s.inside e'.job)
    | _ => true
  | _ => true

/-- The steps of an owner, with the cancel flag raised before the cleanup starts. -/
abbrev Owner.Flagged : Owner → Act → Owner → Prop :=
  restrict (fun s a => s.flag_first a = true) fun s a t => s.step a = some t

/-- Those whose futures are collected as `Owner.sound` says. -/
abbrev Owner.Drains : Owner → Act → Owner → Prop :=
  restrict (fun s a => (s.flag_first a && s.sound a) = true) fun s a t => s.step a = some t

end LocalVoice.TTSStream
