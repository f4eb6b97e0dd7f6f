import LocalVoice.AgentSession.History

/-! `stream_with_tools` writes to two lists, the history of the session and the caller's messages, through
    `_AgentMessageSink`. A call that fails cuts both back. The history may be cleared on the way, when
    the replies of the assistant echo; and the messages, which may have been trimmed, are only cut
    where they are no shorter than the history. -/

namespace LocalVoice.AgentSession

/-- A write of the driver. -/
inductive Write where
  | tool_calls (content : Option String) (calls : List ToolCall)
  | text (content : String)
  | tool_result (tool_call_id content : String)
  deriving DecidableEq

def Write.message : Write → Message
  | tool_calls content calls => .tool_calls content calls
  | text content => .assistant content
  | tool_result id content => .tool id content

/-- `_AgentMessageSink` on a write: the session, and the caller's messages. -/
def sink (r : Session × List Message) : Write → Session × List Message
  | .tool_calls content calls =>
    (r.1.add_assistant_tool_calls content calls, r.2 ++ [.tool_calls content calls])
  | .text content => (r.1.add_assistant content, r.2 ++ [.assistant content])
  | .tool_result id content => (r.1.add_tool_result id content, r.2 ++ [.tool id content])

inductive Ending where | returned | cancelled | raised | iteration_limit
  deriving DecidableEq

/-- The driver writes, and ends. -/
def stream_with_tools (s : Session) (messages : List Message) (writes : List Write) (ending : Ending) :
    Session × List Message :=
  let rollback_anchor := s.history.length
  let messages_offset := messages.length - rollback_anchor
  let r := writes.foldl sink (s, messages)
  match ending with
  | .returned => r
  | .cancelled | .raised | .iteration_limit =>
    ((r.1.rollback_to rollback_anchor).1, r.2.take (rollback_anchor + messages_offset))

/-- This write finds the replies of the assistant echoing. -/
def recovers (s : Session) : Write → Bool
  | .text content => (s.append (.assistant content)).echoes
  | _ => false

/-- No write does, from this session on. -/
def calm (s : Session) : List Write → Prop
  | [] => True
  | w :: ws => recovers s w = false ∧ calm (sink (s, []) w).1 ws

/-- What a call leaves of the session and the messages. -/
structure Lockstep (s : Session) (messages : List Message) (writes : List Write) : Prop where
  messages_grown : (stream_with_tools s messages writes .returned).2 = messages ++ writes.map Write.message
  history_grown : calm s writes →
    (stream_with_tools s messages writes .returned).1.history = s.history ++ writes.map Write.message
  history_recovered : ∀ front w back, writes = front ++ w :: back →
    recovers (front.foldl sink (s, messages)).1 w = true → calm s.reset back →
    (stream_with_tools s messages writes .returned).1.history = back.map Write.message
  session_restored : ∀ ending, ending ≠ .returned → calm s writes →
    (stream_with_tools s messages writes ending).1 = s
  messages_restored : ∀ ending, ending ≠ .returned → s.history.length ≤ messages.length ∨ writes = [] →
    (stream_with_tools s messages writes ending).2 = messages

section
variable {s : Session} {messages : List Message} {writes : List Write} {w : Write}

theorem sink_messages (r : Session × List Message) (w : Write) : (sink r w).2 = r.2 ++ [w.message] := by
  cases w <;> rfl

theorem sink_calm (h : recovers s w = false) : (sink (s, messages) w).1 = s.append w.message := by
  cases w with
  | tool_calls content calls => rfl
  | tool_result id content => rfl
  | text content =>
    show (s.append (.assistant content)).maybe_recover_from_echo = _
    unfold Session.maybe_recover_from_echo
    rw [show (s.append (.assistant content)).echoes = false from h]
    rfl

theorem sink_recovers (h : recovers s w = true) : (sink (s, messages) w).1 = s.reset := by
  cases w with
  | tool_calls content calls => cases h
  | tool_result id content => cases h
  | text content =>
    show (s.append (.assistant content)).maybe_recover_from_echo = _
    unfold Session.maybe_recover_from_echo
    rw [show (s.append (.assistant content)).echoes = true from h]
    rfl

theorem sinks_messages (r : Session × List Message) (writes : List Write) :
    (writes.foldl sink r).2 = r.2 ++ writes.map Write.message := by
  induction writes generalizing r with
  | nil => simp
  | cons w ws ih =>
    rw [List.foldl_cons, ih, sink_messages, List.map_cons, List.append_assoc]
    rfl

theorem sinks_calm (h : calm s writes) : (writes.foldl sink (s, messages)).1 =
    { s with history := s.history ++ writes.map Write.message } := by
  induction writes generalizing s messages with
  | nil => simp
  | cons w ws ih =>
    obtain ⟨hw, hws⟩ := h
    rw [sink_calm hw] at hws
    have hnext : sink (s, messages) w = (s.append w.message, messages ++ [w.message]) :=
      Prod.ext (sink_calm hw) (sink_messages _ w)
    rw [List.foldl_cons, hnext, ih hws]
    simp [Session.append]

/-- A call that fails leaves both lists as they were, as long as nothing echoes and the messages are no
    shorter than the history; one that returns appends the same messages to both. -/
theorem stream_lockstep (s : Session) (messages : List Message) (writes : List Write) :
    Lockstep s messages writes where
  messages_grown := sinks_messages _ _
  history_grown := by
    intro hcalm
    show (writes.foldl sink (s, messages)).1.history = _
    rw [sinks_calm hcalm]
  history_recovered := by
    rintro front w back rfl hrec hcalm
    show ((front ++ w :: back).foldl sink (s, messages)).1.history = _
    rw [List.foldl_append, List.foldl_cons]
    generalize front.foldl sink (s, messages) = r at hrec
    have hnext : sink r w = (s.reset, r.2 ++ [w.message]) := Prod.ext (sink_recovers hrec) (sink_messages r w)
    rw [hnext, sinks_calm hcalm]
    rfl
  session_restored := by
    intro ending hending hcalm
    have hback : ((writes.foldl sink (s, messages)).1.rollback_to s.history.length).1 = s := by
      rw [sinks_calm hcalm]
      unfold Session.rollback_to
      split
      · next hle =>
        have hnone : writes.map Write.message = [] := by
          rw [List.length_append] at hle
          exact List.eq_nil_of_length_eq_zero (by omega)
        simp [hnone]
      · simp
    cases ending with
    | returned => exact absurd rfl hending
    | cancelled | raised | iteration_limit => exact hback
  messages_restored := by
    intro ending hending hlong
    have hback : (writes.foldl sink (s, messages)).2.take
        (s.history.length + (messages.length - s.history.length)) = messages := by
      rw [sinks_messages]
      rcases hlong with hle | rfl
      · rw [Nat.add_sub_cancel' hle, List.take_left]
      · rw [List.map_nil, List.append_nil]
        refine List.take_of_length_le ?_
        show messages.length ≤ _
        omega
    cases ending with
    | returned => exact absurd rfl hending
    | cancelled | raised | iteration_limit => exact hback

end

/-- Two turns with the same short reply, and the message of the user in the third. -/
def third_time : Session :=
  ⟨[.user "hi", .assistant "ok", .user "hi", .assistant "ok", .user "hi"], true, true, false⟩

/-- The third reply is the same: the call returns, the messages have grown, and the history is empty. -/
theorem echo_clears_history : ¬ ∀ (s : Session) (messages : List Message) (writes : List Write), ∃ grown,
    (stream_with_tools s messages writes .returned).1.history = s.history ++ grown ∧
      (stream_with_tools s messages writes .returned).2 = messages ++ grown := by
  intro hall
  obtain ⟨grown, hgrown, -⟩ := hall third_time (.system "" :: third_time.history) [.text "ok"]
  have hcleared : (stream_with_tools third_time (.system "" :: third_time.history) [.text "ok"]
      .returned).1.history = [] := by decide
  rw [hcleared] at hgrown
  exact absurd (List.append_eq_nil_iff.1 hgrown.symm).1 (by decide)

end LocalVoice.AgentSession
