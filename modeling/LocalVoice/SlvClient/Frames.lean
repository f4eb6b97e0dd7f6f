import Mathlib.Data.Int.Notation
import Mathlib.Data.Nat.Notation
import Mathlib.Data.List.Basic

/-! `_reader_loop`, `_handle_binary` and `_handle_json` of `SLVClient` in `agent/ovs_agent/slv_client.py`,
    with the message types of `protocol.py`. What the interpreter does with a text, a float or a value
    that it prints is a parameter; the conversions say on which values they raise. -/

namespace LocalVoice.SlvClient.Frames

/-! ### Values -/

/-- What `json.loads` returns. -/
inductive Value (F : Type) where
  | null
  | bool (b : Bool)
  | int (n : ℤ)
  | float (x : F)
  | str (s : String)
  | list (items : List (Value F))
  | dict (items : List (String × Value F))

/-- How `json.loads` ends: with a value, a `JSONDecodeError`, or an exception that is none. -/
inductive Loaded (F : Type) where
  | value (v : Value F)
  | decode_error (e : String)
  | raises (e : String)

/-- An exception: that of `json.loads`, a `.get` of no object, `[:80]` of a value that has no slices,
    `float` and `int` of a value that they do not take. -/
inductive Raised (F : Type) where
  | loads (e : String)
  | get (v : Value F)
  | slice (v : Value F)
  | float (v : Value F)
  | int (v : Value F)

/-- The interpreter: its floats with the literal `15.0`, `json.loads`, `str` of what is no text, `bool` of
    a float, `float` of an integer and of a text and `int` of a float and of a text, where they return, and
    the text of an exception. -/
structure Python where
  F : Type
  fifteen : F
  loads : String → Loaded F
  printed : Value F → String
  nonzero : F → Bool
  float_of_int : ℤ → Option F
  float_of_str : String → Option F
  int_of_float : F → Option ℤ
  int_of_str : String → Option ℤ
  message : Raised F → String

abbrev Obj (F : Type) := List (String × Value F)

/-- `evt.get(key, default)`. -/
def get_or {F : Type} (evt : Obj F) (key : String) (default : Value F) : Value F :=
  (evt.lookup key).getD default

/-- `evt.get(key)`. -/
def get {F : Type} (evt : Obj F) (key : String) : Value F := get_or evt key .null

namespace Value
variable {F : Type}

/-- `v if isinstance(v, dict) else {}`. -/
def members : Value F → Obj F
  | .dict items => items
  | _ => []

/-- `v == s`. -/
def is_str (s : String) : Value F → Bool
  | .str t => t = s
  | _ => false

/-- `v[:80]` returns. -/
def sliced : Value F → Bool
  | .str _ | .list _ => true
  | _ => false

end Value

namespace Python
variable (py : Python)

/-- `str(v)`. -/
def str : Value py.F → String
  | .str s => s
  | v => py.printed v

/-- `bool(v)`. -/
def truthy : Value py.F → Bool
  | .null => false
  | .bool b => b
  | .int n => n ≠ 0
  | .float x => py.nonzero x
  | .str s => s ≠ ""
  | .list items => !items.isEmpty
  | .dict items => !items.isEmpty

/-- `a or b`. -/
def either (a b : Value py.F) : Value py.F := if py.truthy a then a else b

/-- `str(v or "")`. -/
def text (v : Value py.F) : String := py.str (py.either v (.str ""))

/-- `float(v)`, where it returns. -/
def float? : Value py.F → Option py.F
  | .bool b => py.float_of_int (if b then 1 else 0)
  | .int n => py.float_of_int n
  | .float x => some x
  | .str s => py.float_of_str s
  | _ => none

/-- `int(v)`, where it returns. -/
def int? : Value py.F → Option ℤ
  | .bool b => some (if b then 1 else 0)
  | .int n => some n
  | .float x => py.int_of_float x
  | .str s => py.int_of_str s
  | _ => none

end Python

/-! ### Messages and events -/

inductive Message where
  | asr_partial
  | asr_endpoint
  | asr_final
  | tts_started
  | tts_sentence_done
  | tts_done
  | input_audio_buffer_speech_started
  | input_audio_buffer_speech_stopped
  | input_audio_buffer_committed
  | input_audio_transcription_delta
  | input_audio_transcription_completed
  | session_created
  | session_updated
  | response_created
  | response_output_audio_done
  | response_output_audio_transcript_delta
  | response_output_audio_transcript_done
  | response_done
  | response_output_item_added
  | response_function_call_arguments_done
  | conversation_item_truncated
  | conversation_reset_done
  | x_v2v_tts_sentence_started
  | x_v2v_tts_sentence_done
  | tool_call
  | error
  deriving DecidableEq

namespace Message

/-- The `type` of a message. -/
def name : Message → String
  | asr_partial => "asr_partial"
  | asr_endpoint => "asr_endpoint"
  | asr_final => "asr_final"
  | tts_started => "tts_started"
  | tts_sentence_done => "tts_sentence_done"
  | tts_done => "tts_done"
  | input_audio_buffer_speech_started => "input_audio_buffer.speech_started"
  | input_audio_buffer_speech_stopped => "input_audio_buffer.speech_stopped"
  | input_audio_buffer_committed => "input_audio_buffer.committed"
  | input_audio_transcription_delta => "conversation.item.input_audio_transcription.delta"
  | input_audio_transcription_completed => "conversation.item.input_audio_transcription.completed"
  | session_created => "session.created"
  | session_updated => "session.updated"
  | response_created => "response.created"
  | response_output_audio_done => "response.output_audio.done"
  | response_output_audio_transcript_delta => "response.output_audio_transcript.delta"
  | response_output_audio_transcript_done => "response.output_audio_transcript.done"
  | response_done => "response.done"
  | response_output_item_added => "response.output_item.added"
  | response_function_call_arguments_done => "response.function_call_arguments.done"
  | conversation_item_truncated => "conversation.item.truncated"
  | conversation_reset_done => "x_v2v.conversation.reset.done"
  | x_v2v_tts_sentence_started => "x_v2v.tts_sentence.started"
  | x_v2v_tts_sentence_done => "x_v2v.tts_sentence.done"
  | tool_call => "tool_call"
  | error => "error"

/-- In the order in which `_handle_json` compares them. -/
def all : List Message :=
  [ asr_partial, asr_endpoint, asr_final, tts_started, tts_sentence_done, tts_done,
    input_audio_buffer_speech_started, input_audio_buffer_speech_stopped, input_audio_buffer_committed,
    input_audio_transcription_delta, input_audio_transcription_completed, session_created, session_updated,
    response_created, response_output_audio_done, response_output_audio_transcript_delta,
    response_output_audio_transcript_done, response_done, response_output_item_added,
    response_function_call_arguments_done, conversation_item_truncated, conversation_reset_done,
    x_v2v_tts_sentence_started, x_v2v_tts_sentence_done, tool_call, error]

/-- The message that an event is. -/
def of {F : Type} (evt : Obj F) : Option Message := all.find? fun m => (get evt "type").is_str m.name

end Message

/-- The texts that are not converted are values, of whatever type the server has sent. -/
inductive Event (F : Type) where
  | session_created (session_id : String) (session : Obj F)
  | session_updated (session_id : String) (session : Obj F)
  | response_created (response_id : String) (response : Obj F)
  | response_output_audio_done (response_id : String)
  | assistant_transcript_delta (response_id delta : String)
  | assistant_transcript_done (response_id transcript : String)
  | response_output_item_added (response_id : String) (item : Obj F)
  | response_done (response_id status : String) (response : Obj F)
  | input_audio_speech_started (item_id : String)
  | input_audio_speech_stopped (item_id : String)
  | input_audio_committed (item_id : String)
  | conversation_item_truncated (item_id : String) (audio_end_ms : ℤ)
  | conversation_reset_done
  | asr_partial (text : Value F) (is_stable : Bool)
  | asr_endpoint
  | asr_final (text : Value F) (session_complete duplicate_of_streamed : Bool) (language : Value F)
  | tts_started (sentence : Value F)
  | tts_sentence_done (sentence : Value F)
  | tts_done (session_complete : Bool)
  | tts_audio (pcm : List UInt8) (sample_rate : ℕ)
  | slv_error (message : String)
  | server_tool_call (id name : String) (arguments : Obj F) (timeout_s : F)

/-! ### The handlers -/

/-- What the handlers keep from one frame to the next. -/
structure Client where
  tts_sample_rate : Option ℕ
  active_response_id : Option String
  active_output_item_id : Option String

/-- What a handler leaves and queues, unless it raises. -/
abbrev Handled (py : Python) := Except (Raised py.F) (Client × List (Event py.F))

section
variable (py : Python) (c : Client)

/-- `struct.unpack("<I", data[:4])`. -/
def unpack (data : List UInt8) : ℕ := (data.take 4).foldr (fun b n => b.toNat + 256 * n) 0

/-- `_handle_binary`. -/
def handle_binary (data : List UInt8) : Handled py :=
  match c.tts_sample_rate with
  | none =>
    if data.length < 4 then .ok (c, [.slv_error "first binary frame < 4 bytes"])
    else
      let sr := unpack data
      let pcm := data.drop 4
      .ok ({ c with tts_sample_rate := some sr }, if pcm ≠ [] then [.tts_audio pcm sr] else [])
  | some sr => .ok (c, [.tts_audio data sr])

/-- `float(v)` of a tool call, and the event with it. -/
def tool_call (v : Value py.F) (event : py.F → Event py.F) : Handled py :=
  match py.float? v with
  | some timeout_s => .ok (c, [event timeout_s])
  | none => .error (.float v)

/-- The arguments of a function call; only a `JSONDecodeError` or a `TypeError` is caught. -/
def function_call_arguments (v : Value py.F) : Except (Raised py.F) (Obj py.F) :=
  match py.either v (.str "\x7b\x7d") with
  | .str raw =>
    match py.loads raw with
    | .value v => .ok v.members
    | .decode_error _ => .ok []
    | .raises e => .error (.loads e)
  | v => .ok v.members

/-- `_handle_json` of an object. -/
def handle_evt (evt : Obj py.F) : Handled py :=
  match Message.of evt with
  | some Message.asr_partial =>
    .ok (c, [Event.asr_partial (get_or evt "text" (.str ""))
      (py.truthy (get_or evt "is_stable" (.bool false)))])
  | some .asr_endpoint => .ok (c, [.asr_endpoint])
  | some .asr_final =>
    .ok (c, [.asr_final (get_or evt "text" (.str "")) (py.truthy (get_or evt "session_complete" (.bool true)))
      (py.truthy (get_or evt "duplicate_of_streamed" (.bool false))) (get evt "language")])
  | some .tts_started =>
    -- the log line slices the sentence
    let sentence := get_or evt "sentence" (.str "")
    if sentence.sliced then .ok (c, [.tts_started sentence]) else .error (.slice sentence)
  | some .tts_sentence_done => .ok (c, [.tts_sentence_done (get_or evt "sentence" (.str ""))])
  | some .tts_done => .ok (c, [.tts_done (py.truthy (get_or evt "session_complete" (.bool true)))])
  | some .input_audio_buffer_speech_started =>
    .ok (c, [.input_audio_speech_started (py.text (get evt "item_id"))])
  | some .input_audio_buffer_speech_stopped =>
    .ok (c, [.input_audio_speech_stopped (py.text (get evt "item_id"))])
  | some .input_audio_buffer_committed => .ok (c, [.input_audio_committed (py.text (get evt "item_id"))])
  | some .input_audio_transcription_delta =>
    .ok (c, [Event.asr_partial (.str (py.text (get evt "delta")))
      (py.truthy (get_or evt "is_stable" (.bool false)))])
  | some .input_audio_transcription_completed =>
    .ok (c, [.asr_final (.str (py.text (get evt "transcript"))) false false (get evt "language")])
  | some .session_created =>
    let session := (get evt "session").members
    .ok (c, [.session_created (py.text (get session "id")) session])
  | some .session_updated =>
    let session := (get evt "session").members
    .ok (c, [.session_updated (py.text (get session "id")) session])
  | some .response_created =>
    let response := (get evt "response").members
    let response_id := py.text (py.either (get response "id") (get evt "response_id"))
    .ok ({ c with active_response_id := some response_id }, [.response_created response_id response])
  | some .response_output_audio_done =>
    .ok (c, [.response_output_audio_done (py.text (get evt "response_id"))])
  | some .response_output_audio_transcript_delta =>
    .ok (c, [.assistant_transcript_delta (py.text (get evt "response_id")) (py.text (get evt "delta"))])
  | some .response_output_audio_transcript_done =>
    .ok (c, [.assistant_transcript_done (py.text (get evt "response_id")) (py.text (get evt "transcript"))])
  | some .response_done =>
    let response := (get evt "response").members
    let response_id := py.text (py.either (get response "id") (get evt "response_id"))
    let c := if some response_id = c.active_response_id then
      { c with active_response_id := none, active_output_item_id := none } else c
    .ok (c, [.response_done response_id (py.str (py.either (get response "status") (.str "completed"))) response])
  | some .response_output_item_added =>
    let item := (get evt "item").members
    let c := if (get item "type").is_str "message" && (get item "role").is_str "assistant" then
      let id := py.text (get item "id")
      { c with active_output_item_id := if id ≠ "" then some id else none } else c
    .ok (c, [.response_output_item_added (py.text (get evt "response_id")) item])
  | some .response_function_call_arguments_done => do
    let arguments ← function_call_arguments py (get evt "arguments")
    let extension := (get evt "x_v2v").members
    tool_call py c (get_or extension "timeout_s" (.float py.fifteen))
      (.server_tool_call (py.text (get evt "call_id")) (py.text (get evt "name")) arguments)
  | some .conversation_item_truncated =>
    let v := py.either (get evt "audio_end_ms") (.int 0)
    match py.int? v with
    | some audio_end_ms => .ok (c, [.conversation_item_truncated (py.text (get evt "item_id")) audio_end_ms])
    | none => .error (.int v)
  | some .conversation_reset_done => .ok (c, [.conversation_reset_done])
  | some .x_v2v_tts_sentence_started => .ok (c, [.tts_started (.str (py.text (get evt "sentence")))])
  | some .x_v2v_tts_sentence_done => .ok (c, [.tts_sentence_done (.str (py.text (get evt "sentence")))])
  | some .tool_call =>
    tool_call py c (get_or evt "timeout_s" (.float py.fifteen))
      (.server_tool_call (py.str (py.either (get evt "call_id") (get_or evt "id" (.str ""))))
        (py.str (get_or evt "name" (.str ""))) (get evt "arguments").members)
  | some .error =>
    let error := get_or evt "error" (.str "unknown")
    let message := match error with
      | .dict error => py.str (py.either (py.either (get error "message") (get error "code")) (.str "unknown"))
      | error => py.str error
    .ok (c, [.slv_error message])
  | none => .ok (c, [])

/-- `_handle_json`. -/
def handle_json (raw : String) : Handled py :=
  match py.loads raw with
  | .decode_error e => .ok (c, [.slv_error ("bad json: " ++ e)])
  | .raises e => .error (.loads e)
  | .value (.dict evt) => handle_evt py c evt
  | .value v => .error (.get v)

inductive Frame where
  | text (raw : String)
  | binary (data : List UInt8)

def handle : Frame → Handled py
  | .text raw => handle_json py c raw
  | .binary data => handle_binary py c data

end

/-- How a socket ends: it is closed, with an error or well, or the reader is cancelled. -/
inductive Ending where
  | closed (e : String)
  | finished
  | cancelled
  deriving DecidableEq

inductive Outcome (F : Type) where
  | ended (e : Ending)
  | crashed (e : Raised F)

/-- `_reader_loop` over the frames of a socket: what it queues, and why it ends. -/
def reader_loop (py : Python) (ending : Ending) : Client → List Frame → List (Event py.F) × Outcome py.F
  | _, [] => (match ending with
    | .closed e => [.slv_error ("connection closed: " ++ e)]
    | _ => [], .ended ending)
  | c, frame :: frames =>
    match handle py c frame with
    | .ok (c', events) =>
      let rest := reader_loop py ending c' frames
      (events ++ rest.1, rest.2)
    | .error e => ([.slv_error (py.message e)], .crashed e)

/-! ### Which frames the handlers take -/

/-- Where a message converts a field, the field is of a kind that the conversion takes. -/
def converts (py : Python) (evt : Obj py.F) : Prop :=
  match Message.of evt with
  | some .tts_started => (get_or evt "sentence" (.str "")).sliced = true
  | some .response_function_call_arguments_done =>
    (∀ raw e, py.either (get evt "arguments") (.str "\x7b\x7d") = .str raw → py.loads raw ≠ .raises e) ∧
      (py.float? (get_or (get evt "x_v2v").members "timeout_s" (.float py.fifteen))).isSome
  | some .conversation_item_truncated => (py.int? (py.either (get evt "audio_end_ms") (.int 0))).isSome
  | some .tool_call => (py.float? (get_or evt "timeout_s" (.float py.fifteen))).isSome
  | _ => True

/-- A text is an object whose fields convert, or no JSON; a binary frame may be anything. -/
def taken (py : Python) : Frame → Prop
  | .binary _ => True
  | .text raw =>
    match py.loads raw with
    | .decode_error _ => True
    | .raises _ => False
    | .value (.dict evt) => converts py evt
    | .value _ => False

variable {py : Python}

/-- A handler that returns just when `ok` holds: it queues one event at most, which does not depend on
    what the client keeps, and leaves the sample rate. -/
def Takes (h : Client → Handled py) (ok : Prop) : Prop :=
  ∃ (g : Client → Client) (r : Except (Raised py.F) (List (Event py.F))),
    (∀ c, h c = r.map (g c, ·)) ∧ (∀ c, (g c).tts_sample_rate = c.tts_sample_rate) ∧
      (∀ events, r = .ok events → events.length ≤ 1) ∧ ((∃ events, r = .ok events) ↔ ok)

theorem Takes.congr {h : Client → Handled py} {ok ok' : Prop} (ht : Takes h ok) (hiff : ok ↔ ok') :
    Takes h ok' := by
  obtain ⟨g, r, heq, hg, hlen, hok⟩ := ht
  exact ⟨g, r, heq, hg, hlen, hok.trans hiff⟩

/-- What is queued does not raise. -/
theorem takes_queued (g : Client → Client) (hg : ∀ c, (g c).tts_sample_rate = c.tts_sample_rate)
    (events : List (Event py.F)) (h : events.length ≤ 1) : Takes (fun c => .ok (g c, events)) True := by
  refine ⟨g, .ok events, fun _ => rfl, hg, ?_, iff_of_true ⟨_, rfl⟩ trivial⟩
  intro events' heq
  cases heq
  exact h

theorem takes_event (g : Client → Client) (hg : ∀ c, (g c).tts_sample_rate = c.tts_sample_rate)
    (e : Event py.F) : Takes (fun c => .ok (g c, [e])) True := takes_queued g hg [e] (Nat.le_refl 1)

theorem takes_none (e : Raised py.F) : Takes (fun _ => .error e) False := by
  refine ⟨id, .error e, fun _ => rfl, fun _ => rfl, fun events h => (by cases h), iff_of_false ?_ id⟩
  rintro ⟨events, h⟩
  cases h

theorem takes_tool_call (v : Value py.F) (event : py.F → Event py.F) :
    Takes (fun c => tool_call py c v event) ((py.float? v).isSome = true) := by
  unfold tool_call
  cases py.float? v with
  | none => simpa using takes_none (.float v)
  | some timeout_s => simpa using takes_event id (fun _ => rfl) (event timeout_s)

/-- The arguments are got just when `json.loads` ends in a way that is caught. -/
theorem function_call_arguments_ok (v : Value py.F) :
    (∃ a, function_call_arguments py v = .ok a) ↔
      ∀ raw e, py.either v (.str "\x7b\x7d") = .str raw → py.loads raw ≠ .raises e := by
  unfold function_call_arguments
  generalize py.either v (.str "\x7b\x7d") = w
  cases w with
  | str raw =>
    dsimp only
    cases hloads : py.loads raw with
    | value v =>
      refine iff_of_true ⟨_, rfl⟩ fun raw' e heq hraises => ?_
      cases heq
      rw [hloads] at hraises
      cases hraises
    | decode_error e' =>
      refine iff_of_true ⟨_, rfl⟩ fun raw' e heq hraises => ?_
      cases heq
      rw [hloads] at hraises
      cases hraises
    | raises e =>
      refine iff_of_false ?_ fun h => h raw e rfl hloads
      rintro ⟨a, ha⟩
      cases ha
  | _ => exact iff_of_true ⟨_, rfl⟩ fun raw e heq => by cases heq

theorem handle_evt_takes (evt : Obj py.F) : Takes (fun c => handle_evt py c evt) (converts py evt) := by
  unfold handle_evt converts
  cases Message.of evt with
  | none => exact takes_queued id (fun _ => rfl) [] (Nat.zero_le 1)
  | some m =>
    cases m with
    | tts_started =>
      dsimp only
      split
      · next h => simpa [h] using takes_event id (fun _ => rfl) _
      · next h => simpa [h] using takes_none _
    | response_created =>
      exact takes_event (fun c => { c with active_response_id := some _ }) (fun _ => rfl) _
    | response_done =>
      dsimp only
      refine takes_event _ (fun c => ?_) _
      split <;> rfl
    | response_output_item_added =>
      dsimp only
      refine takes_event _ (fun c => ?_) _
      split <;> rfl
    | response_function_call_arguments_done =>
      have harguments := function_call_arguments_ok (get evt "arguments")
      dsimp only
      cases hget : function_call_arguments py (get evt "arguments") with
      | error e =>
        rw [hget] at harguments
        have hno : ¬ ∀ raw e, py.either (get evt "arguments") (.str "\x7b\x7d") = .str raw →
            py.loads raw ≠ .raises e := by
          intro h
          obtain ⟨a, ha⟩ := harguments.2 h
          cases ha
        exact (takes_none e).congr (iff_of_false id fun h => hno h.1)
      | ok arguments =>
        rw [hget] at harguments
        exact (takes_tool_call _ _).congr (and_iff_right (harguments.1 ⟨_, rfl⟩)).symm
    | conversation_item_truncated =>
      dsimp only
      cases py.int? (py.either (get evt "audio_end_ms") (.int 0)) with
      | none => simpa using takes_none _
      | some n => simpa using takes_event id (fun _ => rfl) _
    | tool_call => exact takes_tool_call _ _
    | _ => exact takes_event id (fun _ => rfl) _

variable (py) in
theorem handle_json_takes (raw : String) :
    Takes (fun c => handle_json py c raw) (taken py (.text raw)) := by
  unfold handle_json taken
  dsimp only
  cases py.loads raw with
  | decode_error e => exact takes_event id (fun _ => rfl) _
  | raises e => exact takes_none _
  | value v =>
    cases v with
    | dict evt => exact handle_evt_takes evt
    | _ => exact takes_none _

variable {c d c' : Client} {f : Frame} {frames pre post : List Frame} {ending : Ending}

/-- A binary frame is taken, whatever it holds. -/
theorem handle_binary_ok (py : Python) (c : Client) (data : List UInt8) :
    ∃ c' events, handle_binary py c data = .ok (c', events) ∧ events.length ≤ 1 ∧
      (data.length < 4 → c'.tts_sample_rate = c.tts_sample_rate) := by
  unfold handle_binary
  split
  · split
    · exact ⟨_, _, rfl, Nat.le_refl 1, fun _ => rfl⟩
    · next hlong =>
      refine ⟨_, _, rfl, ?_, fun h => absurd h hlong⟩
      split
      · exact Nat.le_refl 1
      · exact Nat.zero_le 1
  · exact ⟨_, _, rfl, Nat.le_refl 1, fun _ => rfl⟩

theorem handle_binary_same (h : c.tts_sample_rate = d.tts_sample_rate) (data : List UInt8) :
    ∃ c' d' events, handle_binary py c data = .ok (c', events) ∧ handle_binary py d data = .ok (d', events) ∧
      c'.tts_sample_rate = d'.tts_sample_rate := by
  unfold handle_binary
  rw [h]
  split
  · split
    · exact ⟨_, _, _, rfl, rfl, h⟩
    · exact ⟨_, _, _, rfl, rfl, rfl⟩
  · exact ⟨_, _, _, rfl, rfl, h⟩

/-- A handler returns just when the frame is one that it takes. -/
theorem handle_ok_iff (py : Python) (c : Client) (f : Frame) :
    (∃ r, handle py c f = .ok r) ↔ taken py f := by
  cases f with
  | binary data =>
    obtain ⟨c', events, h, -⟩ := handle_binary_ok py c data
    exact iff_of_true ⟨_, h⟩ trivial
  | text raw =>
    obtain ⟨g, r, heq, -, -, hok⟩ := handle_json_takes py raw
    rw [← hok, show handle py c (.text raw) = _ from heq c]
    cases r with
    | ok events => exact iff_of_true ⟨_, rfl⟩ ⟨_, rfl⟩
    | error e => exact iff_of_false (by rintro ⟨r, h⟩; cases h) (by rintro ⟨r, h⟩; cases h)

/-- A handler that returns has queued one event at most. -/
theorem handle_once (h : taken py f) (c : Client) :
    ∃ c' events, handle py c f = .ok (c', events) ∧ events.length ≤ 1 := by
  cases f with
  | binary data =>
    obtain ⟨c', events, heq, hlen, -⟩ := handle_binary_ok py c data
    exact ⟨c', events, heq, hlen⟩
  | text raw =>
    obtain ⟨g, r, heq, -, hlen, hok⟩ := handle_json_takes py raw
    obtain ⟨events, rfl⟩ := hok.2 h
    exact ⟨g c, events, heq c, hlen events rfl⟩

/-- What a frame leads to depends on the client only by the sample rate. -/
theorem handle_same (h : c.tts_sample_rate = d.tts_sample_rate) (hf : taken py f) :
    ∃ c' d' events, handle py c f = .ok (c', events) ∧ handle py d f = .ok (d', events) ∧
      c'.tts_sample_rate = d'.tts_sample_rate := by
  cases f with
  | binary data => exact handle_binary_same h data
  | text raw =>
    obtain ⟨g, r, heq, hg, -, hok⟩ := handle_json_takes py raw
    obtain ⟨events, rfl⟩ := hok.2 hf
    exact ⟨g c, g d, events, heq c, heq d, by rw [hg, hg, h]⟩

/-! ### The reader -/

/-- A frame that is no audio: any text, and a binary frame that is too short to give the sample rate. -/
def Frame.no_audio : Frame → Prop
  | .text _ => True
  | .binary data => data.length < 4

theorem handle_rate (hf : taken py f) (hno : f.no_audio) (c : Client) : ∃ c' events,
    handle py c f = .ok (c', events) ∧ events.length ≤ 1 ∧ c'.tts_sample_rate = c.tts_sample_rate := by
  cases f with
  | binary data =>
    obtain ⟨c', events, heq, hlen, hrate⟩ := handle_binary_ok py c data
    exact ⟨c', events, heq, hlen, hrate hno⟩
  | text raw =>
    obtain ⟨g, r, heq, hg, hlen, hok⟩ := handle_json_takes py raw
    obtain ⟨events, rfl⟩ := hok.2 hf
    exact ⟨g c, events, heq c, hlen events rfl, hg c⟩

/-- No frame ends the session: each handler returns, with one event at most; the reader ends when the
    socket does; and but for what is queued for it, a frame that is no audio changes nothing. -/
structure Survives (py : Python) (c : Client) (frames : List Frame) : Prop where
  returns : ∀ f ∈ frames, ∀ c, ∃ c' events, handle py c f = .ok (c', events) ∧ events.length ≤ 1
  ends : ∀ ending, (reader_loop py ending c frames).2 = .ended ending
  later : ∀ ending pre f post, frames = pre ++ f :: post → f.no_audio → ∃ own after, own.length ≤ 1 ∧
    (reader_loop py ending c frames).1 = (reader_loop py .cancelled c pre).1 ++ own ++ after ∧
      (reader_loop py ending c (pre ++ post)).1 = (reader_loop py .cancelled c pre).1 ++ after

theorem reader_same (h : c.tts_sample_rate = d.tts_sample_rate) (hf : ∀ f ∈ frames, taken py f) :
    reader_loop py ending c frames = reader_loop py ending d frames := by
  induction frames generalizing c d with
  | nil => rfl
  | cons f frames ih =>
    obtain ⟨c', d', events, hc, hd, hrate⟩ := handle_same h (hf f List.mem_cons_self)
    simp only [reader_loop, hc, hd, ih hrate fun g hg => hf g (List.mem_cons_of_mem _ hg)]

/-- The reader is done with some frames, and goes on with the next. -/
theorem reader_append (ending : Ending) (c : Client) (hpre : ∀ f ∈ pre, taken py f) : ∃ c', ∀ post,
    reader_loop py ending c (pre ++ post) =
      ((reader_loop py .cancelled c pre).1 ++ (reader_loop py ending c' post).1,
        (reader_loop py ending c' post).2) := by
  induction pre generalizing c with
  | nil => exact ⟨c, fun _ => rfl⟩
  | cons f pre ih =>
    obtain ⟨c', events, hc, -⟩ := handle_once (hpre f List.mem_cons_self) c
    obtain ⟨c'', hrest⟩ := ih c' fun g hg => hpre g (List.mem_cons_of_mem _ hg)
    refine ⟨c'', fun post => ?_⟩
    simp only [List.cons_append, reader_loop, hc, hrest post, List.append_assoc]

theorem reader_ends (h : ∀ f ∈ frames, taken py f) : (reader_loop py ending c frames).2 = .ended ending := by
  induction frames generalizing c with
  | nil => rfl
  | cons f frames ih =>
    obtain ⟨c', events, hc, -⟩ := handle_once (h f List.mem_cons_self) c
    simp only [reader_loop, hc]
    exact ih fun g hg => h g (List.mem_cons_of_mem _ hg)

theorem reader_later (h : ∀ g ∈ pre ++ f :: post, taken py g) (hno : f.no_audio) :
    ∃ own after, own.length ≤ 1 ∧
      (reader_loop py ending c (pre ++ f :: post)).1 = (reader_loop py .cancelled c pre).1 ++ own ++ after ∧
        (reader_loop py ending c (pre ++ post)).1 = (reader_loop py .cancelled c pre).1 ++ after := by
  have hpre : ∀ g ∈ pre, taken py g := fun g hg => h g (List.mem_append_left _ hg)
  have hpost : ∀ g ∈ post, taken py g := fun g hg =>
    h g (List.mem_append_right _ (List.mem_cons_of_mem _ hg))
  obtain ⟨c₁, happend⟩ := reader_append ending c hpre
  obtain ⟨c₂, own, hown, hlen, hrate⟩ :=
    handle_rate (h f (List.mem_append_right _ List.mem_cons_self)) hno c₁
  refine ⟨own, (reader_loop py ending c₁ post).1, hlen, ?_, by rw [happend]⟩
  rw [happend]
  simp only [reader_loop, hown, reader_same hrate hpost, List.append_assoc]

/-- A session survives its frames just when every text is an object whose fields convert, or no JSON. -/
theorem session_survives_iff (py : Python) (c : Client) (frames : List Frame) :
    Survives py c frames ↔ ∀ f ∈ frames, taken py f := by
  constructor
  · intro h f hf
    obtain ⟨c', events, heq, -⟩ := h.returns f hf c
    exact (handle_ok_iff py c f).1 ⟨_, heq⟩
  · intro h
    refine ⟨fun f hf c => handle_once (h f hf) c, fun _ => reader_ends h, ?_⟩
    rintro ending pre f post rfl hno
    exact reader_later h hno

/-- The text `null` is JSON and no object: its `.get` raises, and the reader ends with the socket open. -/
theorem null_crashes : ∃ (py : Python) (c : Client), ¬ Survives py c [.text "null"] := by
  let py : Python := {
    F := ℤ
    fifteen := 15
    loads := fun raw => if raw = "null" then .value .null else .decode_error "Expecting value"
    printed := fun _ => "None"
    nonzero := fun x => x ≠ 0
    float_of_int := some
    float_of_str := fun _ => none
    int_of_float := some
    int_of_str := fun _ => none
    message := fun _ => "'NoneType' object has no attribute 'get'" }
  refine ⟨py, ⟨none, none, none⟩, fun h => ?_⟩
  have hloads : py.loads "null" = .value .null := by simp [py]
  have hends := h.ends .finished
  simp [reader_loop, handle, handle_json, hloads] at hends

end LocalVoice.SlvClient.Frames
