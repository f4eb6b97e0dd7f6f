import Mathlib.Data.Int.Notation
import Mathlib.Data.Nat.Notation
import LocalVoice.Lib.PyText
import LocalVoice.Lib.Run
import LocalVoice.Lib.Tasks

/-! `EdgeLLMBackend.stream_events` of `agent/ovs_agent/llm/edge_llm.py` over the retrying stream of
    `agent/ovs_agent/llm/openai_compat.py`. Any number of calls on one session stream at the same
    time, the upstream does as it likes with each request, and the session is reset and warmed by
    others in between.

        first pass:  request ─▶ chunks ─▶ end
                        ▲         │ transient, nothing seen
                        └─ pause ◀┘
                                  │ prefix_cache rejected, nothing yielded
        second pass: request ◀────┘ once, without prefix_cache -/

namespace LocalVoice.LlmBackend
open LocalVoice.Lib

/-! ### What the upstream sends -/

inductive LLMEvent where
  | text (text : String)
  | tool_call_delta (index : ℤ) (tool_call_id name arguments : Option String)
  | finish (finish_reason : String)
  deriving DecidableEq

/-- The truth of a string that may be missing. -/
def filled (s : Option String) : Bool := s.any (· ≠ "")

/-- `_has_event_payload`. -/
def LLMEvent.has_payload : LLMEvent → Bool
  | .text s => s ≠ ""
  | .tool_call_delta _ tool_call_id name arguments =>
    filled tool_call_id || filled name || filled arguments
  | .finish _ => false

structure ToolCallDelta where
  index : Option ℤ
  id : Option String
  function : Option (Option String × Option String)

structure Delta where
  content : Option String
  tool_calls : List ToolCallDelta

/-- The first choice of a chunk. -/
structure Choice where
  delta : Option Delta
  finish_reason : Option String

def ToolCallDelta.event (tc : ToolCallDelta) : LLMEvent :=
  .tool_call_delta (tc.index.getD 0) tc.id (tc.function.bind Prod.fst) (tc.function.bind Prod.snd)

def Delta.events (d : Delta) : List LLMEvent :=
  ((d.content.filter (· ≠ "")).map LLMEvent.text).toList ++ d.tool_calls.map ToolCallDelta.event

/-- What `_do_stream` yields for a chunk. -/
def Choice.events (c : Choice) : List LLMEvent :=
  (c.delta.map Delta.events).getD [] ++
    ((c.finish_reason.filter (· ≠ "")).map LLMEvent.finish).toList

/-- `APIConnectionError` with its subclass `APITimeoutError`, any other `APIError`, `LLMStreamError`,
    and exceptions that are none of these. -/
inductive ErrorClass where
  | api_connection
  | api (status_code : Option ℤ)
  | stream
  | other
  deriving DecidableEq

structure Error where
  kind : ErrorClass
  message : String
  deriving DecidableEq

/-- `_is_retryable`. -/
def Error.is_retryable (e : Error) : Bool :=
  match e.kind with
  | .api_connection => true
  | .api (some status) => decide (500 ≤ status) && decide (status < 600)
  | _ => false

def PREFIX_CACHE_MARKERS : List String :=
  ["prefix_cache", "prefix cache", "kv cache", "kv_cache", "kv mismatch", "prefix_messages"]

/-- `_is_prefix_cache_failure`. -/
def Error.is_prefix_cache_failure (e : Error) : Bool :=
  PREFIX_CACHE_MARKERS.any fun marker => PyText.contains (PyText.lower e.message) marker

/-- `except (APIError, LLMStreamError)`. -/
def Error.caught (e : Error) : Bool := e.kind ≠ .other

def upstream_error : Error := ⟨.stream, "upstream emitted finish_reason=error mid-stream"⟩

/-! ### A call -/

structure Session where
  prefix_cache_warmed : Bool
  prefix_cache_disabled : Bool
  deriving DecidableEq

/-- The caller's arguments: is there a `session`, and the `prefix_cache` of its own `extra_body`. -/
structure Args where
  session : Bool
  prefix_cache : Option Bool
  deriving DecidableEq

def Session.use_prefix_cache (s : Session) (a : Args) : Bool :=
  a.session && s.prefix_cache_warmed && !s.prefix_cache_disabled

/-- `_build_extra_body` with the caller's own values over it: is `prefix_cache` true? -/
def Session.flag (s : Session) (a : Args) : Bool := a.prefix_cache.getD (s.use_prefix_cache a)

inductive Stage where
  | streaming
  | backing_off
  | ended (raised : Option Error)
  deriving DecidableEq

/-- A call of `stream_events`. `past` are the events of the attempts before this one and `events` those
    of this one, `outcomes` says how the attempts ended that are over, and `made` counts the requests;
    the code holds none of these four. -/
structure Stream where
  args : Args
  used_prefix_cache : Bool
  fallback : Bool
  flag : Bool
  attempt : ℕ
  payload_seen : Bool
  yielded_any : Bool
  stage : Stage
  past : List LLMEvent
  events : List LLMEvent
  outcomes : List (Option Error)
  made : ℕ
  deriving DecidableEq

def Stream.call (s : Session) (a : Args) : Stream :=
  ⟨a, s.use_prefix_cache a, false, s.flag a, 0, false, false, .streaming, [], [], [], 1⟩

namespace Stream
variable (retry_on_transient : ℤ) (t : Stream)

/-- The attempts of this pass. -/
def attempts : ℕ := if t.fallback then 1 else 1 + (max 0 retry_on_transient).toNat

def yield (evs : List LLMEvent) : Stream :=
  { t with
    events := t.events ++ evs
    payload_seen := t.payload_seen || evs.any LLMEvent.has_payload
    yielded_any := t.yielded_any || (!t.fallback && !evs.isEmpty) }

/-- The end of an attempt that another one follows. -/
def set_aside (e : Error) : Stream :=
  { t with past := t.past ++ t.events, events := [], outcomes := t.outcomes ++ [some e] }

/-- The pause is over. -/
def next_attempt : Stream :=
  { t with attempt := t.attempt + 1, payload_seen := false, stage := .streaming, made := t.made + 1 }

/-- The call without `prefix_cache`, on the session as it is. -/
def fall_back (s : Session) : Stream :=
  { t with fallback := true, flag := s.flag t.args, attempt := 0, payload_seen := false,
           stage := .streaming, made := t.made + 1 }

/-- The end of the last attempt. -/
def finish (raised : Option Error) : Stream :=
  { t with stage := .ended raised, outcomes := t.outcomes ++ [raised] }

def retries (e : Error) : Bool :=
  !t.payload_seen && e.is_retryable && decide (t.attempt + 1 < t.attempts retry_on_transient)

/-- The error that left the first pass is a rejection of the prefix cache. -/
def rejected (e : Error) : Bool :=
  e.caught && !t.fallback && t.used_prefix_cache && e.is_prefix_cache_failure

end Stream

/-! ### Calls on one session -/

/-- What happens to the session, in order; the code keeps no such log. -/
inductive Entry where
  | called (i : ℕ)
  | request (i : ℕ) (flag : Bool)
  | rejected (i : ℕ)
  | reset
  deriving DecidableEq

structure State where
  session : Session
  streams : List Stream
  log : List Entry
  deriving DecidableEq

def State.init (warmed : Bool) : State := ⟨⟨warmed, false⟩, [], []⟩

/-- A call; a chunk for it, with its first choice if there is one; the end of its response; an error at
    its await, whatever it waits for; the end of its pause; `Session.reset`; and a write of
    `prefix_cache_warmed` by others. -/
inductive Label where
  | call (a : Args)
  | chunk (i : ℕ) (choice : Option Choice)
  | done (i : ℕ)
  | error (i : ℕ) (e : Error)
  | wakes (i : ℕ)
  | reset
  | warm (b : Bool)

namespace State
variable (retry_on_transient : ℤ) (c : State)

def put (i : ℕ) (t : Stream) : State := { c with streams := c.streams.set i t }

def note (entries : List Entry) : State := { c with log := c.log ++ entries }

/-- `_disable_prefix_cache` of a call that has a session. -/
def disable (i : ℕ) : State :=
  { c with session := { c.session with prefix_cache_disabled := true }, log := c.log ++ [.rejected i] }

/-- An error in the attempt of the `i`-th call. -/
def raise (i : ℕ) (t : Stream) (e : Error) : State :=
  if t.retries retry_on_transient e then c.put i { t.set_aside e with stage := .backing_off }
  else if t.rejected e then
    if t.yielded_any then (c.disable i).put i (t.finish (some e))
    else ((c.disable i).put i ((t.set_aside e).fall_back (c.disable i).session)).note
      [.request i ((c.disable i).session.flag t.args)]
  else c.put i (t.finish (some e))

def chunk (i : ℕ) (t : Stream) (choice : Choice) : State :=
  if choice.finish_reason = some "error" then c.raise retry_on_transient i t upstream_error
  else c.put i (t.yield choice.events)

def next : Label → Option State
  | .call a => some { c with
      streams := c.streams ++ [.call c.session a]
      log := c.log ++ [.called c.streams.length, .request c.streams.length (c.session.flag a)] }
  | .chunk i choice => do
    let t ← c.streams[i]?
    if t.stage = .streaming then
      match choice with
      | none => some c
      | some choice => some (c.chunk retry_on_transient i t choice)
    else none
  | .done i => do
    let t ← c.streams[i]?
    if t.stage = .streaming then
      some { c.put i (t.finish none) with
        session := { c.session with
          prefix_cache_warmed := t.args.session || c.session.prefix_cache_warmed } }
    else none
  | .error i e => do
    let t ← c.streams[i]?
    match t.stage with
    | .streaming => some (c.raise retry_on_transient i t e)
    -- the task is cancelled in its pause
    | .backing_off => some (c.put i { t with stage := .ended (some e) })
    | .ended _ => none
  | .wakes i => do
    let t ← c.streams[i]?
    if t.stage = .backing_off then some ((c.put i t.next_attempt).note [.request i t.flag]) else none
  | .reset => some ({ c with session := ⟨false, false⟩ }.note [.reset])
  | .warm b => some { c with session := { c.session with prefix_cache_warmed := b } }

end State

def step (retry_on_transient : ℤ) (c : State) (a : Label) (c' : State) : Prop :=
  c.next retry_on_transient a = some c'

end LocalVoice.LlmBackend
