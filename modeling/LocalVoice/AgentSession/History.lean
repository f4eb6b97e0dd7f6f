import Mathlib.Data.List.Basic
import Mathlib.Data.Nat.Notation
import LocalVoice.Lib.Run

/-! The history of `Session` in `agent/ovs_agent/session.py`, and the turns that write it:
    `stream_with_tools` of `agent/ovs_agent/tools/runner.py`, whose driver writes through the sink, one
    message at a time. `reset()` may come between any two of them.

        begin ─▶ (calls ─▶ result*)* ─▶ text? ─▶ finish
                     └── cap, cancel, raise: back to the anchor ──▶ -/

namespace LocalVoice.AgentSession
open LocalVoice.Lib

/-! ### Messages -/

structure ToolCall where
  id : String
  name : String
  arguments : String
  deriving DecidableEq

/-- A message in the format of the chat API; `tool_calls` is one of the assistant. -/
inductive Message where
  | system (content : String)
  | user (content : String)
  | assistant (content : String)
  | tool_calls (content : Option String) (calls : List ToolCall)
  | tool (tool_call_id content : String)
  deriving DecidableEq

def Message.is_tool : Message → Bool
  | .tool .. => true
  | _ => false

def Message.tool_call_id : Message → Option String
  | .tool id _ => some id
  | _ => none

/-- The content of an assistant message, if it has one. -/
def Message.assistant_text : Message → Option String
  | .assistant content => some content
  | .tool_calls content _ => content
  | _ => none

/-! ### The session -/

structure Session where
  history : List Message
  prefix_cache_warmed : Bool
  graph_warmed : Bool
  prefix_cache_disabled : Bool
  deriving DecidableEq

def Session.init : Session := ⟨[], false, false, false⟩

def ECHO_WINDOW : ℕ := 3

def ECHO_MAX_LEN : ℕ := 40

namespace Session
variable (s : Session)

def append (m : Message) : Session := { s with history := s.history ++ [m] }

def reset (_ : Session) : Session := ⟨[], false, false, false⟩

def add_user (text : String) : Session := s.append (.user text)

def add_assistant_tool_calls (content : Option String) (calls : List ToolCall) : Session :=
  s.append (.tool_calls content calls)

def add_tool_result (tool_call_id content : String) : Session := s.append (.tool tool_call_id content)

/-- The last texts of the assistant are the same short one. -/
def echoes : Bool :=
  let texts := s.history.filterMap Message.assistant_text
  match texts.drop (texts.length - ECHO_WINDOW) with
  | [] => false
  | first :: rest =>
    decide (ECHO_WINDOW ≤ s.history.length) && decide (ECHO_WINDOW ≤ texts.length) &&
      decide (first.length ≤ ECHO_MAX_LEN) && rest.all fun t => decide (t = first)

def maybe_recover_from_echo : Session := if s.echoes then s.reset else s

def add_assistant (text : String) : Session := (s.append (.assistant text)).maybe_recover_from_echo

/-- The history up to the anchor, and how many messages that drops. -/
def rollback_to (anchor : ℕ) : Session × ℕ :=
  if s.history.length ≤ anchor then (s, 0)
  else ({ s with history := s.history.take anchor }, s.history.length - anchor)

end Session

/-! ### Turns -/

/-- A call of `stream_with_tools`; `pending` are the calls that the driver has no result for yet, and
    `closed` says that it writes nothing more. `cleared` and `cut` are not in the code: the history was
    cleared since the turn began, and since its last `tool_calls` message. -/
structure Turn where
  rollback_anchor : ℕ
  messages : List Message
  messages_offset : ℕ
  pending : List String
  closed : Bool
  cleared : Bool
  cut : Bool
  deriving DecidableEq

def Turn.start (history messages : List Message) : Turn :=
  ⟨history.length, messages, messages.length - history.length, [], false, false, false⟩

structure State where
  session : Session
  turn : Option Turn
  deriving DecidableEq

def State.init : State := ⟨Session.init, none⟩

/-- A turn begins with the text of the user and the messages for the LLM; the driver writes calls, a
    result, or a text, comes to the iteration cap, or returns; the turn is cancelled, or raises; or the
    session is reset. -/
inductive Label where
  | begin (text : String) (messages : List Message)
  | calls (content : Option String) (calls : List ToolCall)
  | result (content : String)
  | text (content : String)
  | cap
  | finish
  | cancel
  | fail
  | reset
  deriving DecidableEq

/-- Both lists back to where the turn began. -/
def Turn.rollback (t : Turn) (s : Session) : Session × Turn :=
  ((s.rollback_to t.rollback_anchor).1,
    { t with messages := t.messages.take (t.rollback_anchor + t.messages_offset) })

/-- The text at the end may clear the history. -/
def State.add_text (c : State) (t : Turn) (content : String) : State :=
  let s := c.session.append (.assistant content)
  ⟨c.session.add_assistant content, some { t with
    messages := t.messages ++ [.assistant content]
    closed := true
    cleared := t.cleared || s.echoes
    cut := t.cut || s.echoes }⟩

def State.step (c : State) : Label → Option State
  | .begin text messages => match c.turn with
    | some _ => none
    | none => some ⟨c.session.add_user text, some (Turn.start (c.session.add_user text).history messages)⟩
  | .reset => some ⟨c.session.reset, c.turn.map fun t => { t with cleared := true, cut := true }⟩
  | .calls content calls => match c.turn with
    | none => none
    | some t =>
      if t.pending ≠ [] || t.closed then none
      else some ⟨c.session.add_assistant_tool_calls content calls, some { t with
        messages := t.messages ++ [.tool_calls content calls]
        pending := calls.map ToolCall.id
        cut := false }⟩
  | .result content => match c.turn with
    | none => none
    | some t => match t.pending with
      | [] => none
      | id :: rest => some ⟨c.session.add_tool_result id content, some { t with
          messages := t.messages ++ [.tool id content]
          pending := rest }⟩
  | .text content => match c.turn with
    | none => none
    | some t => if t.pending ≠ [] || t.closed then none else some (c.add_text t content)
  | .cap => match c.turn with
    | none => none
    | some t =>
      if t.closed then none
      else some ⟨(t.rollback c.session).1, some { (t.rollback c.session).2 with pending := [], closed := true }⟩
  | .finish => match c.turn with
    | none => none
    | some t => if t.pending ≠ [] then none else some ⟨c.session, none⟩
  | .cancel | .fail => match c.turn with
    | none => none
    | some t => some ⟨(t.rollback c.session).1, none⟩

def step (c : State) (a : Label) (c' : State) : Prop := c.step a = some c'

end LocalVoice.AgentSession
