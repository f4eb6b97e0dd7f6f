import Mathlib.Logic.Function.Basic
import LocalVoice.Lib.Run
import LocalVoice.Lib.Tasks

/-! `SLVClient` of `agent/ovs_agent/slv_client.py`, with everything that runs on it: any number of
    `connect()`, `reconnect()`, `close()` and sends, the reader task of each socket, the consumer of
    `events()` with the tool tasks that it starts, and a server that answers as it likes. A step ends
    at an `await`.

        reconnect: waiting ─ locked ─ closing_reader ─ closing_ws ─ pausing ┐
        send:      waiting ──────────────────────────────────────────────┐  │
        connect:   ──────────────────────────────────────────────────────┴──┴▶ dialing
        dialing ─ configuring ─ grace ──healthy──▶ writing, or ended
           ▲          └ slammed     └──rejected──▶ burying_reader ─ burying_ws ┐
           └────────────── backing_off ◀───────────────────────────────────────┘

    Sockets are numbered as they are assigned to `_ws`, and the reader of a socket is the task that
    was created for it. -/

namespace LocalVoice.SlvClient
open LocalVoice.Lib

/-! ### What the tasks share -/

/-- The reader of a socket. It reads what `_ws` is when it first runs; a task that is cancelled before
    that runs nothing. -/
inductive Reader where
  | absent
  | created
  | running (target : ℕ)
  | cancelled (target : Option ℕ)
  | done
  deriving DecidableEq

def Reader.alive : Reader → Bool
  | .absent | .done => false
  | _ => true

/-- `task.cancel()`. -/
def Reader.cancel : Reader → Reader
  | .created => .cancelled none
  | .running t => .cancelled (some t)
  | r => r

/-- An item of `_queue`. -/
inductive Event where
  | audio (pcm : List UInt8) (sample_rate : ℕ)
  | error
  | tool_call
  | other
  deriving DecidableEq

/-- What a reader did, and the session that was accepted then. -/
structure Effect where
  reader : ℕ
  session : Option ℕ
  deriving DecidableEq

/-- The fields of a client, and its sockets; `sets` counts the calls of `_reader_done.set()`. The rest
    is not in the code: the accepted session, the rate a handshake gave, the binary frames that were
    read from a socket, the events with the socket they came from, what readers did, the sockets whose
    attempt was judged rejected, and the tool results that were written, each with the socket of its
    call and its own one. -/
structure Shared where
  v2 : Bool
  ws : Option ℕ
  reader_task : Option ℕ
  reader_done : Bool
  sets : ℕ
  closed : Bool
  tts_sample_rate : Option ℕ
  last_close_code : Option ℕ
  session_gen : ℕ
  keepalive : Bool
  queue : List (ℕ × Event)
  opened : ℕ
  live : ℕ → Bool
  reader : ℕ → Reader
  session : Option ℕ
  rate : ℕ → Option ℕ
  frames : ℕ → List (List UInt8)
  emitted : List (ℕ × Event)
  effects : List Effect
  rejected : List ℕ
  written : List (ℕ × ℕ)

def Shared.init (v2 : Bool) : Shared :=
  ⟨v2, none, none, false, 0, false, none, none, 0, false, [], 0, fun _ => false, fun _ => .absent, none,
    fun _ => none, fun _ => [], [], [], [], []⟩

namespace Shared
variable (c : Shared)

def alive (s : ℕ) : Bool := (c.reader s).alive

def set_reader (s : ℕ) (r : Reader) : Shared := { c with reader := Function.update c.reader s r }

def close_sock (s : ℕ) : Shared := { c with live := Function.update c.live s false }

/-- The readers, after `_reader_task` was cancelled. -/
def cancelled_readers : ℕ → Reader :=
  match c.reader_task with
  | some r => Function.update c.reader r (c.reader r).cancel
  | none => c.reader

def put (s : ℕ) (e : Event) : Shared :=
  { c with queue := c.queue ++ [(s, e)], emitted := c.emitted ++ [(s, e)] }

/-- The `finally` arm of a reader. -/
def end_reader (s : ℕ) : Shared :=
  { c.set_reader s .done with reader_done := true, sets := c.sets + 1 }

def acted (s : ℕ) : Shared := { c with effects := c.effects ++ [⟨s, c.session⟩] }

/-! ### Frames -/

/-- `struct.unpack("<I", data[:4])`. -/
def unpack (data : List UInt8) : ℕ := (data.take 4).foldr (fun b n => b.toNat + 256 * n) 0

/-- The rate after a binary frame, and the events it makes: without a rate, four bytes say it. -/
def decode (rate : Option ℕ) (data : List UInt8) : Option ℕ × List Event :=
  match rate with
  | some rate => (some rate, [.audio data rate])
  | none =>
    if data.length < 4 then (none, [.error])
    else (some (unpack data), if data.drop 4 = [] then [] else [.audio (data.drop 4) (unpack data)])

/-- `_handle_binary`, of a frame from the socket. -/
def handle_binary (s : ℕ) (data : List UInt8) : Shared :=
  { c with
    frames := Function.update c.frames s (c.frames s ++ [data])
    tts_sample_rate := (decode c.tts_sample_rate data).1
    queue := c.queue ++ (decode c.tts_sample_rate data).2.map fun e => (s, e)
    emitted := c.emitted ++ (decode c.tts_sample_rate data).2.map fun e => (s, e) }

/-- A frame, by what its handler does: `crash` is one it raises on. -/
inductive Frame where
  | binary (data : List UInt8)
  | tool_call
  | other
  | crash
  deriving DecidableEq

/-- The reader of `s` handles a frame of the socket it reads. -/
def read (s t : ℕ) : Frame → Shared
  | .binary data => (c.handle_binary t data).acted t
  | .tool_call => (c.put t .tool_call).acted t
  | .other => (c.put t .other).acted t
  | .crash => ((c.put t .error).end_reader s).acted t

/-- The reader of `s` comes to the end of its socket: a normal closure ends the loop, any other one
    raises `ConnectionClosed`. -/
def reach_end (s t : ℕ) (normal : Bool) (code : Option ℕ) : Shared :=
  if normal then (c.end_reader s).acted t
  else ((({ c with last_close_code := code }).put t .error).end_reader s).acted t

/-! ### Opening -/

/-- `REALTIME_V2` gives a rate in its handshake; a new attempt begins without one. -/
def begin_attempt : Shared := { c with reader_done := false, tts_sample_rate := none, session := none }

/-- `self._ws = await ws_connect(...)`. -/
def assign : Shared :=
  { c with ws := some c.opened, opened := c.opened + 1, live := Function.update c.live c.opened true }

/-- The socket is configured: its reader is created. -/
def create_reader (n : ℕ) (rate : Option ℕ) : Shared :=
  { c.set_reader n .created with
    reader_task := some n
    tts_sample_rate := if c.v2 then rate else c.tts_sample_rate
    rate := Function.update c.rate n rate }

/-- The socket outlived the grace window. -/
def accept (n : ℕ) : Shared :=
  { c with last_close_code := none, session_gen := c.session_gen + 1, keepalive := !c.closed
           session := some n }

/-- Close what `_ws` is, and forget it. -/
def drop_ws : Shared :=
  { c with
    ws := none
    live := match c.ws with
      | some s => Function.update c.live s false
      | none => c.live }

/-- `close()` up to its first `await`. -/
def shut : Shared := { c with closed := true, keepalive := false, reader := c.cancelled_readers }

/-- `_ws` and `_reader_task` are cleared, and the reader is cancelled. -/
def detach : Shared := { c with ws := none, reader_task := none, reader := c.cancelled_readers }

/-- The attempt on a socket is judged rejected. -/
def judge (n : ℕ) : Shared := { c.detach with rejected := c.rejected ++ [n] }

end Shared

/-! ### Tasks -/

/-- What a send writes: the result of a call that came on a socket, or something else, with
    `connect_if_dead`. -/
inductive Payload where
  | tool_result (origin : ℕ)
  | other (connect_if_dead : Bool)
  deriving DecidableEq

def Payload.connect_if_dead : Payload → Bool
  | .tool_result _ => false
  | .other connect => connect

inductive Job where
  | connect
  | reconnect
  | send (p : Payload)
  | close
  deriving DecidableEq

/-- Where a task stands; `k` is how many attempts are left. -/
inductive Phase where
  | handling
  | waiting
  | locked
  | closing_reader (r : ℕ) (w : Option ℕ)
  | closing_ws (w : ℕ)
  | pausing
  | dialing (k : ℕ)
  | configuring (k n : ℕ)
  | slammed (k n : ℕ)
  | refused (n : ℕ)
  | grace (k n : ℕ) (since : Option ℕ)
  | burying_reader (k r : ℕ) (w : Option ℕ)
  | burying_ws (k w : ℕ)
  | backing_off (k : ℕ)
  | writing (s : ℕ)
  | ending_reader (r : ℕ)
  | ending_ws (w : ℕ)
  | ended
  deriving DecidableEq

inductive Move where
  | go
  | wrote
  | failed
  | connected
  | configured (rate : Option ℕ)
  | slam
  | refuse
  | healthy
  | reject
  | fail
  | cancel
  deriving DecidableEq

/-- `len(_RECONNECT_BACKOFFS)`. -/
def backoffs : ℕ := 3

/-- The grace window was interrupted: `_reader_done` was set when it began, or has been since. -/
def Shared.woken (c : Shared) (since : Option ℕ) : Bool := since.all (· < c.sets)

/-- What is left of `reconnect()` after the old reader. -/
def after_reader : Option ℕ → Phase
  | some w => .closing_ws w
  | none => .pausing

/-- After a rejected attempt: the next one waits, or there is none. -/
def retry : ℕ → Phase
  | 0 => .ended
  | k + 1 => .backing_off (k + 1)

/-- What is left of a rejected attempt after its reader. -/
def after_burial (k : ℕ) : Option ℕ → Phase
  | some w => .burying_ws k w
  | none => retry k

/-- The queue is drained, once there is no socket left to close. -/
def Shared.drain (c : Shared) (w : Option ℕ) : Shared :=
  { c with queue := if w.isSome then c.queue else [] }

/-- What is left of a call once a socket is open. -/
def Job.after_open (ws : Option ℕ) : Job → Phase
  | .send _ => match ws with
    | some s => .writing s
    | none => .ended
  | _ => .ended

/-- What is left of `close()` after the reader. -/
def close_ws : Option ℕ → Phase
  | some w => .ending_ws w
  | none => .ended

/-- A move of a task; what the locks let through is left to `Client.step`. -/
def Phase.move (job : Job) (m : Move) (ph : Phase) (c : Shared) : Option (Phase × Shared) :=
  match m, ph with
  -- the tool handler returns
  | .go, .handling => some (.waiting, c)
  | .go, .waiting => match job with
    | .send p => match c.ws with
      | some s => some (.writing s, c)
      | none =>
        if c.closed || !p.connect_if_dead then some (.ended, c)
        else some (.dialing backoffs, c.begin_attempt)
    | .reconnect => if c.closed then some (.ended, c) else some (.locked, c)
    | _ => none
  | .wrote, .writing s =>
    if c.live s then match job with
      | .send (.tool_result origin) => some (.ended, { c with written := c.written ++ [(origin, s)] })
      | _ => some (.ended, c)
    else none
  | .failed, .writing s => if c.live s then none else some (.ended, { c with ws := none })
  | .fail, .writing _ => some (.ended, c)
  -- `reconnect`
  | .go, .locked => match c.reader_task with
    | some r => if c.alive r then some (.closing_reader r c.ws, c.detach)
        else some (after_reader c.ws, c.detach)
    | none => some (after_reader c.ws, c.detach)
  | .go, .closing_reader r w => if c.alive r then none else some (after_reader w, c)
  | .go, .closing_ws w => some (.pausing, c.close_sock w)
  | .go, .pausing => some (.dialing backoffs, c.begin_attempt)
  -- `_open_with_retry`
  | .connected, .dialing k => some (.configuring k c.opened, c.assign)
  | .fail, .dialing _ => some (.ended, c)
  | .configured rate, .configuring k n =>
    if !c.v2 && rate.isSome then none
    else some (.grace k n (if c.reader_done then none else some c.sets), c.create_reader n rate)
  | .slam, .configuring k n => if c.live n then none else some (.slammed k n, c)
  | .refuse, .configuring _ n => if c.v2 then some (.refused n, c) else none
  | .fail, .configuring _ _ => some (.ended, c)
  | .go, .slammed k _ => some (retry k, c.drop_ws)
  | .go, .refused _ => some (.ended, c.drop_ws)
  | .healthy, .grace _ n since =>
    if c.woken since then none else some (job.after_open c.ws, c.accept n)
  | .reject, .grace k n since =>
    if !c.woken since then none
    else match c.reader_task with
      | some r => if c.alive r then some (.burying_reader k r c.ws, c.judge n)
          else some (after_burial k c.ws, (c.judge n).drain c.ws)
      | none => some (after_burial k c.ws, (c.judge n).drain c.ws)
  | .go, .burying_reader k r w => if c.alive r then none else some (after_burial k w, c.drain w)
  | .go, .burying_ws k w => some (retry k, (c.close_sock w).drain none)
  | .go, .backing_off k => some (.dialing (k - 1), c.begin_attempt)
  -- `close`
  | .go, .ending_reader r => if c.alive r then none else some (close_ws c.ws, c)
  | .go, .ending_ws w => some (.ended, { c.close_sock w with ws := none })
  -- a cancellation that arrives while a reader is awaited is swallowed
  | .cancel, .closing_reader .. | .cancel, .burying_reader .. | .cancel, .ended => none
  | .cancel, .ending_reader _ | .cancel, .ending_ws _ => none
  | .cancel, _ => some (.ended, c)
  | _, _ => none

/-- How a call begins. -/
def Job.start (c : Shared) : Job → Phase × Shared
  | .connect => if c.ws.isSome then (.ended, c) else (.dialing backoffs, c.begin_attempt)
  | .reconnect => (if c.closed then .ended else .waiting, c)
  | .send _ => (.waiting, c)
  | .close => (match c.reader_task with
    | some r => if c.alive r then .ending_reader r else close_ws c.ws
    | none => close_ws c.ws, c.shut)

structure Task where
  job : Job
  phase : Phase
  deriving DecidableEq

/-- A client: what is shared, the tasks in the order they began, and who holds the locks. -/
structure Client where
  shared : Shared
  tasks : List Task
  send_lock : Option ℕ
  reconnect_lock : Option ℕ

def Client.init (v2 : Bool) : Client := ⟨Shared.init v2, [], none, none⟩

/-! ### Steps -/

inductive Label where
  | call (job : Job)
  | task (i : ℕ) (m : Move)
  | die (s : ℕ)
  | reader_start (s : ℕ)
  | frame (s : ℕ) (f : Shared.Frame)
  | reader_end (s : ℕ) (normal : Bool) (code : Option ℕ)
  | reader_cancel (s : ℕ)
  | take
  | events_clear
  deriving DecidableEq

/-- The move begins with the send lock. -/
def Task.wants_send (t : Task) (m : Move) : Bool :=
  match m, t.job, t.phase with
  | .go, .send _, .waiting => true
  | .go, .reconnect, .locked => true
  | _, _, _ => false

/-- The move begins with the reconnect lock. -/
def Task.wants_reconnect (t : Task) (m : Move) : Bool :=
  match m, t.job, t.phase with
  | .go, .reconnect, .waiting => true
  | _, _, _ => false

/-- A lock after a move of task `i`: taken, or given back at the end. -/
def after_move (i : ℕ) (wants : Bool) (ph : Phase) (holder : Option ℕ) : Option ℕ :=
  if ph = .ended then (if holder = some i then none else holder)
  else if wants then some i else holder

def Client.move (c : Client) (i : ℕ) (m : Move) : Option Client :=
  match c.tasks[i]? with
  | none => none
  | some t =>
    if (t.wants_send m && c.send_lock.isSome) || (t.wants_reconnect m && c.reconnect_lock.isSome) then
      none
    else (t.phase.move t.job m c.shared).map fun r =>
      ⟨r.2, c.tasks.set i ⟨t.job, r.1⟩, after_move i (t.wants_send m) r.1 c.send_lock,
        after_move i (t.wants_reconnect m) r.1 c.reconnect_lock⟩

def Client.with_shared (c : Client) (shared : Shared) : Client := { c with shared := shared }

def Client.step (c : Client) : Label → Option Client
  | .call (.send (.tool_result _)) => none
  | .call job => some { c with
      shared := (job.start c.shared).2
      tasks := c.tasks ++ [⟨job, (job.start c.shared).1⟩] }
  | .task i m => c.move i m
  | .die s => if s < c.shared.opened then some (c.with_shared (c.shared.close_sock s)) else none
  | .reader_start s => match c.shared.reader s with
    | .created => some (c.with_shared (c.shared.set_reader s (match c.shared.ws with
        | some t => .running t
        | none => .done)))
    | _ => none
  | .frame s f => match c.shared.reader s with
    | .running t => some (c.with_shared (c.shared.read s t f))
    | _ => none
  | .reader_end s normal code => match c.shared.reader s with
    | .running t => if c.shared.live t then none
        else some (c.with_shared (c.shared.reach_end s t normal code))
    | _ => none
  | .reader_cancel s => match c.shared.reader s with
    | .cancelled none => some (c.with_shared (c.shared.set_reader s .done))
    | .cancelled (some t) => some (c.with_shared ((c.shared.end_reader s).acted t))
    | _ => none
  | .take => match c.shared.queue with
    | [] => none
    | (s, e) :: rest => some { c with
        shared := { c.shared with queue := rest }
        tasks := if e = .tool_call then c.tasks ++ [⟨.send (.tool_result s), .handling⟩] else c.tasks }
  | .events_clear =>
    if c.shared.reader_done && !c.shared.closed && c.shared.reader_task.any c.shared.alive then
      some (c.with_shared { c.shared with reader_done := false })
    else none

end LocalVoice.SlvClient
