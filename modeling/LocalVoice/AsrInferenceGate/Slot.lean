import LocalVoice.AsrInferenceGate.Fifo

/-! `_asr_utterance_slot` and `_AsrSlotJobs` in `server/main.py`: the /asr/stream handlers, which take
    the gate and the coordinator's lock for each utterance, and the executor threads that run the
    jobs of a slot. A step is a section of a handler between two awaits, a `cancel()` of a handler,
    a callback of the loop, or something a thread does.

        gate ──▶ lock ──▶ job ──▶ job ──▶ drain ──▶ lock and permit released
                           └─(error, cancel)─▲

    Utterances are numbered by their calls of `acquire()`; `slots` holds the jobs of each. -/

namespace LocalVoice.AsrInferenceGate
open LocalVoice.Lib

/-- What is submitted to the executor. -/
inductive Fn where | force_endpoint | prepare_finalize | finalize

/-- What ends an utterance; `end_utterance` knows if the stream has a `force_endpoint`. -/
inductive Endpoint where
  | end_utterance (force_endpoint : Bool)
  | eos
  | vad
  deriving DecidableEq

/-- The jobs of one slot, in order. -/
def Endpoint.plan : Endpoint → List Fn
  | .end_utterance true => [.force_endpoint]
  | .end_utterance false | .eos | .vad => [.prepare_finalize, .finalize]

/-- A thread-pool future. -/
inductive Job where
  | pending
  | running
  | cancelled
  | finished (ok : Bool)
  deriving DecidableEq

def Job.done : Job → Bool
  | .pending | .running => false
  | .cancelled | .finished _ => true

/-- The future of `asyncio.wrap_future`. -/
inductive Wrapper where
  | pending
  | cancelled
  | result (ok : Bool)
  deriving DecidableEq

/-- What the callback of a thread-pool future that is done copies to the wrapper. -/
def Job.outcome : Job → Option Wrapper
  | .pending | .running => none
  | .cancelled => some .cancelled
  | .finished ok => some (.result ok)

/-- What a handler awaits: something outside the slots, or within utterance `k` the gate, the lock,
    the wrapper of the last job, or the end of the jobs. A `cancel()` that cannot cancel the awaited
    future is left as a flag; `failed` says if the body ended by an exception. -/
inductive Await where
  | outside (cancelled : Bool)
  | gate (k : ℕ) (plan : List Fn)
  | lock (k : ℕ) (plan : List Fn) (cancelled : Bool)
  | job (k : ℕ) (rest : List Fn) (wrapper : Wrapper) (must_cancel : Bool)
  | drain (k : ℕ) (failed cancelled : Bool)
  | ended

/-- Who has the coordinator's lock. -/
inductive Holder where
  | utterance (k : ℕ)
  | other
  deriving DecidableEq

/-- The gate, the coordinator (which has a lock unless its mode is concurrent), the handlers and the
    thread-pool futures of each utterance. -/
structure Server where
  gate : Gate
  has_lock : Bool
  lock : Option Holder
  handlers : List Await
  slots : List (List Job)

def Server.init (limits : Limits) (has_lock : Bool) : Server :=
  ⟨Gate.init limits, has_lock, none, [], []⟩

/-- The futures submitted in utterance `k`. -/
def Server.futures (s : Server) (k : ℕ) : List Job := s.slots[k]?.getD []

/-- Handler `h` suspends at an await, or ends. -/
def Server.await (s : Server) (h : ℕ) (a : Await) : Server :=
  { s with handlers := s.handlers.set h a }

/-- Where the handler goes when its utterance is over: an exception ends it. -/
def after (failed : Bool) : Await := if failed then .ended else .outside false

/-- The end of the gate's `acquire()`. -/
def Server.leave (s : Server) (h k : ℕ) (failed : Bool) : Option Server :=
  (s.gate.leave k).map fun g => { s with gate := g }.await h (after failed)

/-- The end of both context managers, the lock first. -/
def Server.release (s : Server) (h k : ℕ) (failed : Bool) : Option Server :=
  { s with lock := none }.leave h k failed

/-- `_AsrSlotJobs.drain`, up to its suspension if a future is not done. -/
def Server.drain (s : Server) (h k : ℕ) (failed : Bool) : Option Server :=
  if (s.futures k).all Job.done then s.release h k failed
  else some (s.await h (.drain k failed false))

/-- The body goes on: `_AsrSlotJobs.run` submits the next job and awaits its wrapper. -/
def Server.go_on (s : Server) (h k : ℕ) : List Fn → Option Server
  | [] => s.drain h k false
  | _ :: rest =>
    some ({ s with slots := s.slots.set k (s.futures k ++ [Job.pending]) }.await h
      (.job k rest .pending false))

def Server.lock_free (s : Server) : Bool := !s.has_lock || s.lock.isNone

/-- The body of the slot starts. -/
def Server.enter (s : Server) (h k : ℕ) (plan : List Fn) : Option Server :=
  { s with lock := if s.has_lock then some (.utterance k) else none }.go_on h k plan

/-- `get_coordinator().acquire("asr")`, up to its suspension if the lock is taken. -/
def Server.acquire (s : Server) (h k : ℕ) (plan : List Fn) : Option Server :=
  if s.lock_free then s.enter h k plan else some (s.await h (.lock k plan false))

/-- An utterance of handler `h` ends. One that is rejected leaves the handler where it was: the
    `InferenceQueueFull` is caught around the slot. -/
def Server.utter (s : Server) (h : ℕ) (plan : List Fn) : Option Server :=
  match s.handlers[h]?, s.gate.arrive.calls[s.gate.calls.length]? with
  | some (.outside false), some .inside =>
    { s with gate := s.gate.arrive, slots := s.slots ++ [[]] }.acquire h s.gate.calls.length plan
  | some (.outside false), some (.waiting ..) =>
    some ({ s with gate := s.gate.arrive, slots := s.slots ++ [[]] }.await h
      (.gate s.gate.calls.length plan))
  | some (.outside false), some _ =>
    some { s with gate := s.gate.arrive, slots := s.slots ++ [[]] }
  | _, _ => none

/-- `task.cancel()`. Only a wrapper that is pending is cancelled; the job itself is left to the
    callback, and the wait of `drain` is shielded. -/
def Server.cancel (s : Server) (h : ℕ) : Option Server :=
  match s.handlers[h]? with
  | some (.outside _) => some (s.await h (.outside true))
  | some (.gate k _) => (s.gate.cancel k).map fun g => { s with gate := g }
  | some (.lock k plan _) => some (s.await h (.lock k plan true))
  | some (.job k rest .pending mc) => some (s.await h (.job k rest .cancelled mc))
  | some (.job k rest w _) => some (s.await h (.job k rest w true))
  | some (.drain k failed _) => some (s.await h (.drain k failed true))
  | _ => none

/-- The loop resumes handler `h`, if what it awaits is done. -/
def Server.resume (s : Server) (h : ℕ) : Option Server :=
  match s.handlers[h]? with
  | some (.gate k plan) =>
    (s.gate.resume k).bind fun g =>
      if g.calls[k]? = some .inside then { s with gate := g }.acquire h k plan
      else some ({ s with gate := g }.await h .ended)
  | some (.lock k plan false) => if s.lock_free then s.enter h k plan else none
  | some (.lock k _ true) => s.leave h k true
  | some (.job _ _ .pending _) => none
  | some (.job k rest (.result true) false) => s.go_on h k rest
  | some (.job k _ _ _) => s.drain h k true
  -- a second cancellation is caught, and the slot released under the worker
  | some (.drain k failed cancelled) =>
    if cancelled || (s.futures k).all Job.done then s.release h k failed else none
  | _ => none

/-- The callback of the thread-pool future sets the wrapper, unless that was cancelled before. -/
def Server.set_state (s : Server) (h : ℕ) : Option Server :=
  match s.handlers[h]? with
  | some (.job k rest .pending mc) =>
    ((s.futures k).getLast?.bind Job.outcome).map fun w => s.await h (.job k rest w mc)
  | _ => none

/-- A future of utterance `k` goes from one state to another. -/
def Server.move (s : Server) (k n : ℕ) (old new : Job) : Option Server :=
  if (s.futures k)[n]? = some old then
    some { s with slots := s.slots.set k ((s.futures k).set n new) }
  else none

inductive SlotEvent where
  | connect
  | utter (h : ℕ) (e : Endpoint)
  | stop (h : ℕ)
  | cancel (h : ℕ)
  | resume (h : ℕ)
  | set_state (h : ℕ)
  | call_check_cancel (h : ℕ)
  | start (k n : ℕ)
  | finish (k n : ℕ) (ok : Bool)
  | lock
  | unlock
  deriving DecidableEq

/-- `call_check_cancel` is the callback of a cancelled wrapper: `cf.cancel()` works on a job that no
    thread has taken. `stop` ends a handler outside the slots, `lock` and `unlock` are the other
    users of the coordinator. -/
def Server.step (s : Server) : SlotEvent → Option Server
  | .connect => some { s with handlers := s.handlers ++ [.outside false] }
  | .utter h e => s.utter h e.plan
  | .stop h =>
    match s.handlers[h]? with
    | some (.outside _) => some (s.await h .ended)
    | _ => none
  | .cancel h => s.cancel h
  | .resume h => s.resume h
  | .set_state h => s.set_state h
  | .call_check_cancel h =>
    match s.handlers[h]? with
    | some (.job k _ .cancelled _) => s.move k ((s.futures k).length - 1) .pending .cancelled
    | _ => none
  | .start k n => s.move k n .pending .running
  | .finish k n ok => s.move k n .running (.finished ok)
  | .lock => if s.has_lock ∧ s.lock = none then some { s with lock := some .other } else none
  | .unlock => if s.lock = some .other then some { s with lock := none } else none

/-- `SlotRuns limits has_lock es s`: some interleaving leads a new server to `s`. -/
def SlotRuns (limits : Limits) (has_lock : Bool) (es : List SlotEvent) (s : Server) : Prop :=
  Run (fun s e t => Server.step s e = some t) (Server.init limits has_lock) es s

end LocalVoice.AsrInferenceGate
