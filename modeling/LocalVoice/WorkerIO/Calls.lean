import LocalVoice.Lib.Dict
import LocalVoice.Lib.Run
import Mathlib.Data.Int.Notation
import LocalVoice.Lib.Tasks

/-! The worker multiplexer with everything that runs on it: any number of `send_request()` and
    `request()` calls, the executor threads that acquire the semaphore for the former, the reader
    thread, any number of `close()` calls. Calls may live on event loops of different threads, so a
    step is one access to what they share: one semaphore operation, one section under a lock, one
    operation on a queue.

    A call is moved by a table of its own (`Call.move`); what a move does to the semaphore and to
    `_inflight` is its `Effect`.

        acquiring ──▶ entered ──▶ checked ──▶ registered ──write──▶ waiting ⇄ taken ⇄ yielded
                                                  └▶ failed ─┐           └──┬───┘       │
       ended ◀── released ◀── popped ◀── leaving ◀───────────┴──────────────┴───────────┘

    A `send_request` cancelled while its acquire is not done ends as `abandoned`, with the thread
    still going; one cancelled after that ends as `late`, with a callback that gives the permit back. -/

namespace LocalVoice.WorkerIO
open LocalVoice.Lib

/-- A line of the worker's stdout that is a JSON object: the id it is addressed to
    (`request_id or id`), whether its event is `done` or `cancelled`, and the rest. -/
structure Line where
  rid : Option String
  terminal : Bool
  body : ℕ
  deriving DecidableEq

/-- What a request's queue holds. -/
inductive Event where
  | worker (line : Line)
  | worker_exit
  deriving DecidableEq

/-- The wrapper future of `run_in_executor`. -/
inductive Future where | pending | result | cancelled
  deriving DecidableEq

/-- The executor's work item that runs `sem.acquire`: in the pool's queue, running, returned with the
    permit, cancelled before it ran. -/
inductive Thread where | submitted | started | acquired | dropped
  deriving DecidableEq

inductive Phase where
  | acquiring (fut : Future) (thread : Thread) (must_cancel : Bool)
  | blocked
  | late
  | abandoned (thread : Thread)
  | entered
  | checked
  | registered
  | failed
  | waiting
  | taken (e : Event)
  | yielded (terminal : Bool)
  | leaving (finished_naturally : Bool)
  | popped (finished_naturally : Bool)
  | released
  | ended
  deriving DecidableEq

/-- A call: `request()` when `sync`, else `send_request()`. The id of a `request()` payload may be
    missing, and `json.dumps` may refuse a payload. The last four fields are not in the code: the
    lines the caller has received, oldest first, and what has happened to its request. -/
structure Call where
  sync : Bool
  id : Option String
  serialisable : Bool
  phase : Phase
  queue : List Event
  received : List Line
  request_written : Bool
  cancel_written : Bool
  answered : Bool
  deriving DecidableEq

def Call.new (sync : Bool) (id : Option String) (serialisable : Bool) (phase : Phase) : Call :=
  ⟨sync, id, serialisable, phase, [], [], false, false, false⟩

/-- The steps of a call, and of the executor thread that acquires for it. -/
inductive Move where
  | thread_start
  | thread_acquire
  | set_result
  | drop
  | resume_acquire
  | callback
  | acquire
  | cancel
  | check
  | register
  | write
  | pop_failed
  | take
  | deliver
  | timeout
  | next
  | stop
  | pop
  | release
  | cancel_line
  deriving DecidableEq

/-- What a move does to the semaphore or to `_inflight`. -/
inductive Effect where
  | quiet
  | take_permit
  | give_permit
  | insert (rid : String)
  | remove (rid : Option String)
  deriving DecidableEq

def Call.goes (c : Call) (phase : Phase) (e : Effect) : Option (Call × Effect) :=
  some ({ c with phase := phase }, e)

/-- A move of a call, given `_closed` and whether the worker's stdin is broken. -/
def Call.move (closed broken : Bool) (m : Move) (c : Call) : Option (Call × Effect) :=
  match m, c.phase with
  -- the executor thread
  | .thread_start, .acquiring fut .submitted mc => c.goes (.acquiring fut .started mc) .quiet
  | .thread_acquire, .acquiring fut .started mc => c.goes (.acquiring fut .acquired mc) .take_permit
  | .thread_acquire, .abandoned .started => c.goes (.abandoned .acquired) .take_permit
  -- the loop learns of the thread's result, or the thread's work item of the cancellation
  | .set_result, .acquiring .pending .acquired mc => c.goes (.acquiring .result .acquired mc) .quiet
  | .drop, .acquiring .cancelled .submitted mc => c.goes (.acquiring .cancelled .dropped mc) .quiet
  -- the task resumes; the wrapper's callbacks have run before it does
  | .resume_acquire, .acquiring .result .acquired false => c.goes .entered .quiet
  | .resume_acquire, .acquiring .result .acquired true => c.goes .late .quiet
  | .resume_acquire, .acquiring .cancelled .submitted _ => none
  | .resume_acquire, .acquiring .cancelled thread _ => c.goes (.abandoned thread) .quiet
  | .callback, .late => c.goes .ended .give_permit
  | .acquire, .blocked => c.goes .entered .take_permit
  -- `task.cancel()`
  | .cancel, .acquiring .pending thread mc => c.goes (.acquiring .cancelled thread mc) .quiet
  | .cancel, .acquiring .result thread _ => c.goes (.acquiring .result thread true) .quiet
  | .cancel, .waiting => if c.sync then none else c.goes (.leaving false) .quiet
  | .cancel, .taken _ => if c.sync then none else c.goes (.leaving false) .quiet
  -- the body
  | .check, .entered => if closed then c.goes .ended .give_permit else c.goes .checked .quiet
  | .register, .checked =>
    match c.id with
    | some rid => c.goes .registered (.insert rid)
    | none => c.goes (.popped false) .quiet
  | .write, .registered =>
    if closed || broken || !c.serialisable then
      if c.sync then c.goes (.leaving false) .quiet else c.goes .failed .quiet
    else some ({ c with phase := .waiting, request_written := true }, .quiet)
  | .pop_failed, .failed => c.goes (.leaving false) (.remove c.id)
  | .take, .waiting =>
    match c.queue with
    | e :: rest => some ({ c with phase := .taken e, queue := rest }, .quiet)
    | [] => none
  | .deliver, .taken .worker_exit => c.goes (.leaving false) .quiet
  | .deliver, .taken (.worker line) =>
    some ({ c with phase := .yielded line.terminal, received := c.received ++ [line],
                   answered := c.answered || line.terminal }, .quiet)
  | .timeout, .waiting => if c.queue = [] then c.goes (.leaving false) .quiet else none
  | .next, .yielded true => c.goes (.leaving true) .quiet
  | .next, .yielded false => c.goes .waiting .quiet
  | .stop, .yielded _ => c.goes (.leaving false) .quiet
  -- the `finally` arm
  | .pop, .leaving natural => c.goes (.popped natural) (.remove c.id)
  | .release, .popped natural =>
    if c.sync || natural then c.goes .ended .give_permit else c.goes .released .give_permit
  | .cancel_line, .released =>
    if closed || broken then c.goes .ended .quiet
    else some ({ c with phase := .ended, cancel_written := true }, .quiet)
  | _, _ => none

/-- The reader thread: at its `for` line, with a line looked up but not yet put, or done. -/
inductive Reader where
  | reading
  | putting (i : ℕ) (line : Line)
  | finished
  deriving DecidableEq

/-- One `WorkerIO`. Each queue is named by its call. A `close()` call is `none` between its two
    sections, then it has the queues left to wake. `emitted` is not in the code: the lines read so
    far; nor is `cleared`: some `close()` has emptied `_inflight`. -/
structure Pool where
  max_slots : ℕ
  queue_when_saturated : Bool
  available : ℕ
  inflight : Dict String ℕ
  closed : Bool
  broken : Bool
  reader : Reader
  closers : List (Option (List ℕ))
  calls : List Call
  emitted : List Line
  cleared : Bool

/-- `WorkerIO(proc, concurrency)`. -/
def Pool.init (concurrency : ℤ) (queue_when_saturated : Bool) : Pool :=
  ⟨(max 1 concurrency).toNat, queue_when_saturated, (max 1 concurrency).toNat, .empty, false, false,
    .reading, [], [], [], false⟩

/-- An effect of call `i`; no permit can be taken when there is none. -/
def Pool.apply (s : Pool) (i : ℕ) : Effect → Option Pool
  | .quiet => some s
  | .take_permit => if 0 < s.available then some { s with available := s.available - 1 } else none
  | .give_permit => some { s with available := s.available + 1 }
  | .insert rid => some { s with inflight := s.inflight.set rid i }
  | .remove none => some s
  | .remove (some rid) => some { s with inflight := s.inflight.filterKeys (· ≠ rid) }

/-- `q.put(e)` on the queue of call `i`. -/
def put (calls : List Call) (i : ℕ) (e : Event) : List Call :=
  calls.modify i fun c => { c with queue := c.queue ++ [e] }

/-- The sentinel on each of the queues `ns`. -/
def put_exit (calls : List Call) (ns : List ℕ) : List Call :=
  calls.mapIdx fun i c => if i ∈ ns then { c with queue := c.queue ++ [.worker_exit] } else c

/-- A new call: it waits for a permit, or takes or is refused one at once when the pool does not
    queue. -/
def Pool.start (s : Pool) (sync : Bool) (id : Option String) (serialisable : Bool) : Pool :=
  if s.queue_when_saturated then
    { s with calls := s.calls ++
        [.new sync id serialisable (if sync then .blocked else .acquiring .pending .submitted false)] }
  else if s.available = 0 then
    { s with calls := s.calls ++ [.new sync id serialisable .ended] }
  else
    { s with available := s.available - 1, calls := s.calls ++ [.new sync id serialisable .entered] }

inductive Action where
  | send_request (id : String) (serialisable : Bool)
  | request (id : Option String) (serialisable : Bool)
  | move (i : ℕ) (m : Move)
  | stdin_breaks
  | emit (line : Line)
  | put_line
  | sweep
  | close
  | close_clear (k : ℕ)
  | close_put (k : ℕ)
  deriving DecidableEq

def Pool.step (s : Pool) : Action → Option Pool
  | .send_request id serialisable => some (s.start false (some id) serialisable)
  | .request id serialisable => some (s.start true id serialisable)
  | .move i m => do
    let c ← s.calls[i]?
    let (c', e) ← c.move s.closed s.broken m
    let s' ← s.apply i e
    return { s' with calls := s'.calls.set i c' }
  | .stdin_breaks => some { s with broken := true }
  -- `for line in stdout`: the queue is looked up under the lock, and put to after it
  | .emit line =>
    if s.reader = .reading then
      match (line.rid.filter (· ≠ "")).bind s.inflight.get? with
      | some i => some { s with reader := .putting i line, emitted := s.emitted ++ [line] }
      | none => some { s with emitted := s.emitted ++ [line] }
    else none
  | .put_line =>
    match s.reader with
    | .putting i line => some { s with reader := .reading, calls := put s.calls i (.worker line) }
    | _ => none
  -- stdout has ended, or the reader has crashed on a line
  | .sweep =>
    if s.reader = .reading then
      some { s with reader := .finished, inflight := .empty,
                    calls := put_exit s.calls (s.inflight.items.map Prod.snd) }
    else none
  | .close => some { s with closed := true, closers := s.closers ++ [none] }
  | .close_clear k =>
    match s.closers[k]? with
    | some none =>
      some { s with inflight := .empty, cleared := true,
                    closers := s.closers.set k (some (s.inflight.items.map Prod.snd)) }
    | _ => none
  | .close_put k =>
    match s.closers[k]? with
    | some (some (i :: rest)) =>
      some { s with calls := put s.calls i .worker_exit, closers := s.closers.set k (some rest) }
    | _ => none

/-- The steps of a pool. -/
def Steps (s : Pool) (a : Action) (t : Pool) : Prop := s.step a = some t

/-- A run from a new pool. -/
def Runs (concurrency : ℤ) (queue_when_saturated : Bool) (as : List Action) (s : Pool) : Prop :=
  Run Steps (.init concurrency queue_when_saturated) as s

end LocalVoice.WorkerIO
