import LocalVoice.SlvClient.ToolResults
import Mathlib.Data.Int.Notation
import Mathlib.Data.List.Basic

/-! What a tool call of the server is answered with: `ToolRegistry.dispatch` of
    `agent/ovs_agent/tools/registry.py`, `_handle_server_tool_call` of `app_base.py` and
    `SLVClient.send_tool_result`, for every way that a tool can end. -/

namespace LocalVoice.ServerLoop

/-- A Python value. `other` is one that `json.dumps` does not take: a set, bytes, an object of some
    class, or one that contains itself. -/
inductive PyVal where
  | none
  | bool (b : Bool)
  | int (n : ℤ)
  | float (text : String)
  | str (s : String)
  | list (items : List PyVal)
  | dict (items : List (PyVal × PyVal))
  | other (text : String)

namespace PyVal

/-- `value.get(key)` of a dict. -/
def get (key : String) : List (PyVal × PyVal) → Option PyVal
  | [] => .none
  | (.str k, v) :: rest => if k = key then some v else get key rest
  | _ :: rest => get key rest

/-- `value is False`. -/
def is_false : Option PyVal → Bool
  | some (.bool false) => true
  | _ => false

/-- What `json.dumps` takes as a key. -/
def key_encodable : PyVal → Bool
  | .none => true
  | .bool _ => true
  | .int _ => true
  | .float _ => true
  | .str _ => true
  | _ => false

mutual

/-- `json.dumps(value)` does not raise. -/
def encodable : PyVal → Bool
  | .other _ => false
  | .list items => encodable_list items
  | .dict items => encodable_items items
  | _ => true

def encodable_list : List PyVal → Bool
  | [] => true
  | v :: rest => encodable v && encodable_list rest

def encodable_items : List (PyVal × PyVal) → Bool
  | [] => true
  | (k, v) :: rest => key_encodable k && encodable v && encodable_items rest

end

end PyVal

/-- How a call of a tool ends: the trigger guard turns it down, there is no such tool, its function
    returns, raises an `Exception` or runs out of its own time, the time of the server runs out,
    `dispatch` itself raises, or something raises that is no `Exception`, as `CancelledError` is. -/
inductive Outcome where
  | refused (error : String)
  | unknown (name : String)
  | returned (value : PyVal)
  | raised (error : String)
  | tool_timed_out (error : String)
  | timed_out (error : String)
  | crashed (error : String)
  | interrupted

/-- `{"success": False, "error": error}`. -/
def failure (error : String) : List (PyVal × PyVal) :=
  [(.str "success", .bool false), (.str "error", .str error)]

/-- `ToolRegistry.dispatch`: the dict it returns, if it returns. -/
def dispatch : Outcome → Option (List (PyVal × PyVal))
  | .unknown name => some (failure ("unknown tool: " ++ name))
  | .returned (.dict items) => some items
  | .returned value => some [(.str "value", value)]
  | .raised error => some (failure error)
  | .tool_timed_out error => some (failure error)
  | _ => none

/-- The arguments of `send_tool_result`. -/
inductive Reply where
  | result (items : List (PyVal × PyVal))
  | error (text : String)

def Reply.ok : Reply → Bool
  | .result _ => true
  | .error _ => false

/-- `error or "tool execution failed"`. -/
def Reply.failed (error : String) : Reply :=
  .error (if error = "" then "tool execution failed" else error)

/-- `_handle_server_tool_call`, with `str()` of what the dict has as its error; `none` when it ends
    without a call of `send_tool_result`. -/
def handle_server_tool_call (str : PyVal → String) (o : Outcome) : Option Reply :=
  match o, dispatch o with
  | .refused error, _ => some (.failed error)
  | .timed_out error, _ => some (.failed error)
  | .crashed error, _ => some (.failed error)
  | _, some items =>
    if PyVal.is_false (PyVal.get "success" items) || PyVal.is_false (PyVal.get "started" items) then
      some (.failed (((PyVal.get "error" items).map str).getD ""))
    else some (.result items)
  | _, none => none

/-- The payload can be written. -/
def Reply.encodable : Reply → Bool
  | .result items => PyVal.encodable_items items
  | .error _ => true

/-- The tool did what it was called for: it returned, and no dict that says otherwise. -/
def Outcome.succeeded : Outcome → Bool
  | .returned (.dict items) =>
    !PyVal.is_false (PyVal.get "success" items) && !PyVal.is_false (PyVal.get "started" items)
  | .returned _ => true
  | _ => false

section
variable {str : PyVal → String} {o : Outcome} {r : Reply}

/-- The answer says `ok` exactly when the tool succeeded. -/
theorem handled_ok (h : handle_server_tool_call str o = some r) : r.ok = o.succeeded := by
  cases o with
  | returned value =>
    cases value with
    | dict items =>
      simp only [handle_server_tool_call, dispatch, Outcome.succeeded] at h ⊢
      split at h
      · next hfalse =>
        cases h
        rw [Bool.or_eq_true] at hfalse
        rcases hfalse with hfalse | hfalse <;> simp [Reply.ok, Reply.failed, hfalse]
      · next hfalse =>
        cases h
        simpa [Reply.ok] using hfalse
    | _ => cases h; rfl
  | interrupted => cases h
  | _ => cases h; rfl

end

/-! The app in server-loop mode on its client: `_advertise_tools_if_server_loop`,
    `_readvertise_if_session_advanced` and `_run_tool_task` of `agent/ovs_agent/app_base.py`, over all
    that the calls and readers of `SLVClient` can do. An advertisement is a send of the client that the
    app awaits; a tool call of the server is the send of its result, which first awaits the tool. -/

open LocalVoice.Lib LocalVoice.SlvClient

/-- An answer that was written: the task of the call, the socket, and what it said. -/
structure Answer where
  call : ℕ
  socket : ℕ
  ok : Bool
  deriving DecidableEq

/-- `advertised_gen` is `_advertised_gen`, `adverts` are the sends that carry an advertisement and
    whether the list of the tools is in it, `dispatching` is the event whose dispatch awaits one, and
    `reply` is what a tool task hands to `send_tool_result`. The rest is not in the code: how tools
    ended, the generation that a socket got, the sockets that a complete advertisement was written to,
    the answers, and the calls that ended without one while their socket was there. -/
structure State where
  client : Client
  advertised_gen : Option ℕ
  adverts : List (ℕ × Bool)
  dispatching : Option (ℕ × ℕ × Event)
  reply : ℕ → Option Reply
  outcome : ℕ → Option Outcome
  gen : ℕ → Option ℕ
  carried : List ℕ
  answers : List Answer
  lost : List ℕ

namespace State
variable (c : State)

def init (v2 : Bool) : State :=
  ⟨Client.init v2, none, [], none, fun _ => none, fun _ => none, fun _ => none, [], [], []⟩

def task (i : ℕ) : Option Task := c.client.tasks[i]?

/-- The socket that the call of a tool task came on. -/
def origin (i : ℕ) : Option ℕ :=
  match c.task i with
  | some ⟨.send (.tool_result s), _⟩ => some s
  | _ => none

/-- The socket of the call is the client's, and alive. -/
def own_alive (i : ℕ) : Bool :=
  (c.origin i).any fun s => c.client.shared.ws = some s && c.client.shared.live s

/-- The task is an advertisement; `none` when it is not. -/
def advert (i : ℕ) : Option Bool := (c.adverts.find? (·.1 = i)).map Prod.snd

/-- `await self.slv.advertise_tools(...)` begins. -/
def advertise (complete : Bool) : State :=
  { c with
    client := { c.client with tasks := c.client.tasks ++ [⟨.send (.other true), .waiting⟩] }
    adverts := c.adverts ++ [(c.client.tasks.length, complete)] }

/-- The event is handled: a tool call becomes a task. -/
def handle (s : ℕ) (e : Event) : State :=
  if e = .tool_call then
    { c with client := { c.client with
        tasks := c.client.tasks ++ [⟨.send (.tool_result s), .handling⟩] } }
  else c

/-- A task ends without an answer. -/
def lose (i : ℕ) (before : State) : State :=
  if before.own_alive i then { c with lost := c.lost ++ [i] } else c

def finished (i : ℕ) : Bool := (c.task i).all fun t => t.phase = .ended

/-- What the app makes of a move of a task that it awaits: after an advertisement that did not raise,
    the generation is recorded; a result that is written is an answer. -/
def observe (before : State) (i : ℕ) (m : Move) : State :=
  match before.advert i, (before.task i).map Task.phase with
  | some complete, some (.writing s) =>
    if m = .wrote then
      { c with
        advertised_gen := some c.client.shared.session_gen
        carried := if complete then c.carried ++ [s] else c.carried }
    else if m = .failed then { c with advertised_gen := some c.client.shared.session_gen }
    else c
  | some _, some .waiting =>
    if m = .go && c.finished i then { c with advertised_gen := some c.client.shared.session_gen } else c
  | none, some (.writing s) =>
    if m = .wrote then
      if (before.origin i).isSome then
        { c with answers := c.answers ++ [⟨i, s, (c.reply i).any Reply.ok⟩] }
      else c
    else if c.finished i then c.lose i before else c
  | none, some _ => if c.finished i then c.lose i before else c
  | _, _ => c

/-- The socket of a healthy opening gets the new generation. -/
def number (before : State) (i : ℕ) (m : Move) : State :=
  match m, (before.task i).map Task.phase with
  | .healthy, some (.grace _ n _) =>
    { c with gen := Function.update c.gen n (some c.client.shared.session_gen) }
  | _, _ => c

/-- A move of a task, with the client's lock and its own phase. -/
def move (i : ℕ) (m : Move) : Option State :=
  (c.client.step (.task i m)).map fun client =>
    (({ c with client := client } : State).number c i m).observe c i m

/-- The send has the lock and a socket, and `json.dumps` does not take its payload. -/
def raises (i : ℕ) (m : Move) : Bool :=
  m = .go && (c.reply i).any (fun r => !r.encodable) && (c.task i).any (fun t => t.phase = .waiting) &&
    c.client.shared.ws.isSome && c.client.send_lock.isNone

end State

inductive Label where
  | client (a : SlvClient.Label)
  | advertise (complete : Bool)
  | dispatch (complete : Bool)
  | handle
  | returns (i : ℕ) (o : Outcome)

namespace State
variable (c : State)

/-- A step of the client. What its queue brings is dispatched, and a tool returns, by the app. -/
def other : SlvClient.Label → Option State
  | .take => none
  | .task i m =>
    if (c.task i).any (fun t => t.phase = .handling) && m = .go then none
    else if c.raises i m then c.move i .cancel
    else c.move i m
  | a => (c.client.step a).map fun client => { c with client := client }

/-- `events()` gives the next event. -/
def pop (rest : List (ℕ × Event)) : State :=
  { c with client := c.client.with_shared { c.client.shared with queue := rest } }

/-- `_dispatch_one` of the next event: a generation that was not advertised is, first. -/
def dispatch (complete : Bool) : Option State :=
  match c.dispatching, c.client.shared.queue with
  | none, (s, e) :: rest =>
    if c.advertised_gen = some c.client.shared.session_gen then some ((c.pop rest).handle s e)
    else some { (c.pop rest).advertise complete with
      dispatching := some (c.client.tasks.length, s, e) }
  | _, _ => none

/-- The tool of a call has come to its end. -/
def returns (str : PyVal → String) (i : ℕ) (o : Outcome) : Option State :=
  if (c.origin i).isSome && (c.task i).any (fun t => t.phase = .handling) then
    match handle_server_tool_call str o with
    | none => State.move { c with outcome := Function.update c.outcome i (some o) } i .cancel
    | some r =>
      -- the second protocol encodes the payload before it sends
      if c.client.shared.v2 && !r.encodable then
        State.move { c with outcome := Function.update c.outcome i (some o) } i .cancel
      else State.move { c with
        outcome := Function.update c.outcome i (some o)
        reply := Function.update c.reply i (some r) } i .go
  else none

def next (str : PyVal → String) : Label → Option State
  | .client a => c.other a
  | .advertise complete => some (c.advertise complete)
  | .dispatch complete => c.dispatch complete
  | .handle =>
    match c.dispatching with
    | some (i, s, e) => if c.finished i then some { c.handle s e with dispatching := none } else none
    | none => none
  | .returns i o => c.returns str i o

end State

/-- `str` is what `str()` makes of a value. -/
def step (str : PyVal → String) (c : State) (a : Label) (c' : State) : Prop := c.next str a = some c'

end LocalVoice.ServerLoop
