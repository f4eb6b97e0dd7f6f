import LocalVoice.Lib.Json
import Mathlib.Data.List.Basic

/-! The realtime V2 event adapter: engine events in, canonical server events out. It owns the ids of
    the open response and of its items. `id_factory` is any callable, so what it returns may depend
    on how often it has been called. -/

namespace LocalVoice.V2V
open LocalVoice.Lib

namespace RealtimeV2EventAdapter

/-- `payload.get("arguments")` as far as it is read: a text, a dictionary (by what `json.dumps`
    makes of it), or anything else. -/
inductive Arguments where
  | text (s : String)
  | dict (dumped : String)
  | other

/-- `payload.get("error")`: a dictionary, or a value. -/
inductive ErrorField where
  | dict (fields : List (String × Json))
  | value (v : Json)

/-- An engine event of one of the legacy kinds, with the fields `translate` reads; `none` is a field
    that is not there. -/
inductive Payload where
  | tts_started (sentence : Option Json)
  | tts_sentence_done (sentence : Option Json)
  | tts_done (session_complete : Option Json)
  | vad_event (event : Option Json)
  | asr_endpoint
  | asr_partial (text is_stable : Option Json)
  | asr_final (text language : Option Json)
  | tool_call (call_id id name timeout_s : Option Json) (arguments : Arguments)
  | error (error : ErrorField) (code param : Option Json)

open Payload ( asr_partial)

/-- The item of a `response.output_item.added`. -/
inductive Item where
  | message (id : Option String)
  | function_call (id call_id : String) (name : Json)
  deriving DecidableEq

/-- A canonical server event. Each carries its `event_id` first. -/
inductive Event where
  | response_created (event_id id : String) (direct_speak : Bool)
  | output_item_added (event_id : String) (response_id : Option String) (output_index : ℕ)
      (item : Item)
  | audio_transcript_delta (event_id : String) (response_id item_id : Option String)
      (output_index : ℕ) (delta : String)
  | audio_transcript_done (event_id response_id : String) (item_id : Option String)
      (output_index : ℕ) (transcript : String)
  | audio_done (event_id response_id : String) (item_id : Option String) (output_index : ℕ)
  | response_done (event_id id status : String) (status_details : Option (String × String))
  | tts_sentence_started (event_id : String) (response_id : Option String) (sentence : Json)
  | tts_sentence_done (event_id : String) (response_id : Option String) (sentence : String)
  | function_call_arguments_done (event_id : String) (response_id : Option String)
      (item_id : String) (output_index : ℕ) (call_id : String) (name : Json) (arguments : String)
      (timeout_s : Json)
  | speech_started (event_id : String) (item_id : Option String)
  | speech_stopped (event_id : String) (item_id : Option String)
  | committed (event_id : String) (item_id : String)
  | transcription_delta (event_id item_id : String) (delta : Json) (is_stable : Bool)
  | transcription_completed (event_id item_id : String) (transcript : Json) (language : Option Json)
  | error (event_id : String) (error : List (String × Json))
  deriving DecidableEq

/-- The wire name of an event. -/
def Event.type : Event → String
  | .response_created .. => "response.created"
  | .output_item_added .. => "response.output_item.added"
  | .audio_transcript_delta .. => "response.output_audio_transcript.delta"
  | .audio_transcript_done .. => "response.output_audio_transcript.done"
  | .audio_done .. => "response.output_audio.done"
  | .response_done .. => "response.done"
  | .tts_sentence_started .. => "x_v2v.tts_sentence.started"
  | .tts_sentence_done .. => "x_v2v.tts_sentence.done"
  | .function_call_arguments_done .. => "response.function_call_arguments.done"
  | .speech_started .. => "input_audio_buffer.speech_started"
  | .speech_stopped .. => "input_audio_buffer.speech_stopped"
  | .committed .. => "input_audio_buffer.committed"
  | .transcription_delta .. => "conversation.item.input_audio_transcription.delta"
  | .transcription_completed .. => "conversation.item.input_audio_transcription.completed"
  | .error .. => "error"

/-- The adapter's fields, and how often `id_factory` has been called. -/
structure Adapter where
  active_response_id : Option String
  active_item_id : Option String
  active_status : String
  active_reason : Option String
  input_item_id : Option String
  audio_item_announced : Bool
  direct_speak : Bool
  output_item_count : ℕ
  active_audio_output_index : ℕ
  active_transcript : List String
  id_calls : ℕ

/-- A new adapter; its session id was the first call of `id_factory`. -/
def Adapter.init : Adapter := ⟨none, none, "completed", none, none, false, false, 0, 0, [], 1⟩

abbrev M := StateM Adapter

/-- The result of a method and the fields after it. -/
def exec {α : Type} (p : M α) (s : Adapter) : α × Adapter := Id.run (p.run s)

section
variable {α β : Type} (s : Adapter)

@[simp] theorem exec_pure (a : α) : exec (pure a) s = (a, s) := rfl

@[simp] theorem exec_bind (p : M α) (f : α → M β) :
    exec (p >>= f) s = exec (f (exec p s).1) (exec p s).2 := rfl

@[simp] theorem exec_map (f : α → β) (p : M α) :
    exec (f <$> p) s = (f (exec p s).1, (exec p s).2) := rfl

@[simp] theorem exec_get : exec get s = (s, s) := rfl

@[simp] theorem exec_set (t : Adapter) : exec (set t) s = (.unit, t) := rfl

@[simp] theorem exec_modify (f : Adapter → Adapter) : exec (modify f) s = (.unit, f s) := rfl

@[simp] theorem exec_ite (c : Prop) [Decidable c] (p q : M α) :
    exec (if c then p else q) s = if c then exec p s else exec q s := by
  split <;> rfl

end

/-- `a or b` on a value that may be missing. -/
def or_else (a b : Option Json) : Option Json :=
  match a with
  | some v => if v.truthy then some v else b
  | none => b

/-- `str(value or default)`. -/
def str_or (v : Option Json) (default : String) : String :=
  match v with
  | some v => if v.truthy then v.toStr else default
  | none => default

/-- `payload.get("arguments")` as JSON text. -/
def Arguments.json : Arguments → String
  | .text s => s
  | .dict dumped => dumped
  | .other => "\x7b\x7d"

/-- The `error` object of an error event. -/
def error_fields (raw : ErrorField) (code param : Option Json) : List (String × Json) :=
  match raw with
  | .dict fields => fields
  | .value v =>
    [("type", .str "server_error"),
     ("code", (or_else code none).getD (.str (str_or (some v) "unknown_error"))),
     ("message", .str (str_or (some v) "unknown server error")),
     ("param", param.getD .null)]

section
variable (id_factory : String → ℕ → String)

def new_id (kind : String) : M String := do
  let s ← get
  set { s with id_calls := s.id_calls + 1 }
  return id_factory kind s.id_calls

@[simp] theorem exec_new_id (kind : String) (s : Adapter) :
    exec (new_id id_factory kind) s =
      (id_factory kind s.id_calls, { s with id_calls := s.id_calls + 1 }) := rfl

def event_id : M String := new_id id_factory "evt"

@[simp] theorem exec_event_id (s : Adapter) :
    exec (event_id id_factory) s =
      (id_factory "evt" s.id_calls, { s with id_calls := s.id_calls + 1 }) := rfl

def mark_cancelled (reason : String) : M Unit :=
  modify fun s =>
    if s.active_response_id.isSome then
      { s with active_status := "cancelled", active_reason := some reason }
    else s

def mark_direct_speak : M Unit := modify fun s => { s with direct_speak := true }

def ensure_response_created : M (List Event) := do
  if (← get).active_response_id.isSome then return []
  let response_id ← new_id id_factory "resp"
  let item_id ← new_id id_factory "item"
  modify fun s =>
    { s with active_response_id := some response_id, active_item_id := some item_id,
             active_status := "completed", active_reason := none, active_transcript := [] }
  let e ← event_id id_factory
  return [.response_created e response_id (← get).direct_speak]

def ensure_audio_item_added : M (List Event) := do
  let events ← ensure_response_created id_factory
  if (← get).audio_item_announced then return events
  modify fun s =>
    { s with audio_item_announced := true, active_audio_output_index := s.output_item_count,
             output_item_count := s.output_item_count + 1 }
  let e ← event_id id_factory
  let s ← get
  return events ++ [.output_item_added e s.active_response_id s.active_audio_output_index
    (.message s.active_item_id)]

/-- The audio end events of `_finish_response`. -/
def audio_done_pair (response_id : String) : M (List Event) := do
  let s ← get
  if s.audio_item_announced then
    let e ← event_id id_factory
    let e' ← event_id id_factory
    return [.audio_transcript_done e response_id s.active_item_id s.active_audio_output_index
        (String.join s.active_transcript),
      .audio_done e' response_id s.active_item_id s.active_audio_output_index]
  else
    return []

def finish_response : M (List Event) := do
  let events ← ensure_response_created id_factory
  let s ← get
  let response_id := s.active_response_id.getD ""
  let audio ← audio_done_pair id_factory response_id
  let details :=
    if s.active_status = "completed" then none
    else some (s.active_status, (s.active_reason.filter (· ≠ "")).getD s.active_status)
  let e ← event_id id_factory
  modify fun s =>
    { s with active_response_id := none, active_item_id := none, active_status := "completed",
             active_reason := none, audio_item_announced := false, direct_speak := false,
             output_item_count := 0, active_audio_output_index := 0, active_transcript := [] }
  return events ++ audio ++ [.response_done e response_id s.active_status details]

/-- `self.input_item_id or self.id_factory("item")`. -/
def input_item : M String := do
  match (← get).input_item_id.filter (· ≠ "") with
  | some i => return i
  | none =>
    let i ← new_id id_factory "item"
    modify fun s => { s with input_item_id := some i }
    return i

def translate : Payload → M (List Event)
  | .tts_started sentence => do
    let events ← ensure_audio_item_added id_factory
    let e ← event_id id_factory
    return events ++ [.tts_sentence_started e (← get).active_response_id
      (sentence.getD (.str ""))]
  | .tts_sentence_done sentence => do
    let sentence := str_or sentence ""
    modify fun s => { s with active_transcript := s.active_transcript ++ [sentence] }
    let s ← get
    let e ← event_id id_factory
    let e' ← event_id id_factory
    return [.audio_transcript_delta e s.active_response_id s.active_item_id
        s.active_audio_output_index sentence,
      .tts_sentence_done e' s.active_response_id sentence]
  | .tts_done session_complete => do
    if (← get).active_response_id = none ∧ session_complete = some (.bool true) then return []
    finish_response id_factory
  | .vad_event event => do
    if event = some (.str "speech_start") then
      let i ← new_id id_factory "item"
      modify fun s => { s with input_item_id := some i }
      return [.speech_started (← event_id id_factory) (some i)]
    else
      let e ← event_id id_factory
      return [.speech_stopped e (← get).input_item_id]
  | .asr_endpoint => do
    let i ← input_item id_factory
    return [.committed (← event_id id_factory) i]
  | asr_partial text is_stable => do
    let i ← input_item id_factory
    return [.transcription_delta (← event_id id_factory) i (text.getD (.str ""))
      ((is_stable.map Json.truthy).getD false)]
  | .asr_final text language => do
    let i ← input_item id_factory
    let e ← event_id id_factory
    modify fun s => { s with input_item_id := none }
    return [.transcription_completed e i (text.getD (.str "")) (or_else language none)]
  | .tool_call call_id id name timeout_s arguments => do
    let events ← ensure_response_created id_factory
    let call_id := str_or (or_else call_id id) ""
    let item_id ← new_id id_factory "item"
    let output_index := (← get).output_item_count
    modify fun s => { s with output_item_count := s.output_item_count + 1 }
    let response_id := (← get).active_response_id
    let e ← event_id id_factory
    let e' ← event_id id_factory
    return events ++ [.output_item_added e response_id output_index
        (.function_call item_id call_id (name.getD (.str ""))),
      .function_call_arguments_done e' response_id item_id output_index call_id
        (name.getD (.str "")) arguments.json (timeout_s.getD (.other "15.0" true))]
  | .error raw code param => do
    return [.error (← event_id id_factory) (error_fields raw code param)]

/-- What the session does with its adapter. -/
inductive Call where
  | translate (payload : Payload)
  | mark_cancelled (reason : String)
  | mark_direct_speak

/-- One call, and the events it returns. -/
def call : Call → M (List Event)
  | .translate payload => translate id_factory payload
  | .mark_cancelled reason => do
    mark_cancelled reason
    return []
  | .mark_direct_speak => do
    mark_direct_speak
    return []

/-- The concatenated output of a sequence of calls. -/
def outputs : List Call → M (List Event)
  | [] => return []
  | c :: cs => do
    let events ← call id_factory c
    let rest ← outputs cs
    return events ++ rest

end

end RealtimeV2EventAdapter

end LocalVoice.V2V
