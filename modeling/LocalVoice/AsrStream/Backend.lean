import LocalVoice.Lib.Flow
import Mathlib.Data.Nat.Notation

/-! A session of `/asr/stream`: the loop of `_asr_stream_backend` in `server/main.py`. What the backend, the
    VAD and the gate answer is given with each message; every call and every await may raise.

        audio ─▶ _seg, _t_samples ─▶ accept_waveform ─▶ VAD end │ partial │ endpoint of the backend
                                                          ╰──────▶ final ─▶ close, create, clear ◀──╯

    A stream is closed when the next one is created, and the last one by the `finally`; `end_utterance`
    keeps the stream and clears the audio of the segment only. -/

namespace LocalVoice.AsrStream
open LocalVoice.Lib Flow

/-- An `int16`, the low byte first. -/
abbrev Sample := UInt8 × UInt8
abbrev Chunk := List Sample

/-- `np.frombuffer(data, dtype=np.int16)`: it raises on half a sample. -/
def frombuffer : List UInt8 → Option Chunk
  | [] => some []
  | [_] => none
  | a :: b :: rest => (frombuffer rest).map ((a, b) :: ·)

inductive Failure where
  | disconnect
  | pool_saturated
  | error
  | cancelled
  deriving DecidableEq

/-- `except Exception`. -/
def Failure.is_exception : Failure → Bool
  | .cancelled => false
  | _ => true

/-- A text message. `bad_type` has no known command, and a `type` that is no text. -/
inductive Command where
  | not_json
  | not_object
  | reset
  | end_utterance
  | bad_type
  | other
  deriving DecidableEq

inductive Message where
  | text (cmd : Command)
  | disconnect
  | no_data
  | bytes (data : List UInt8)
  deriving DecidableEq

/-- A message, and what is answered while it is dealt with: the gate is full, the final, the event of the
    VAD, the partial result, and whether the diarizer has a summary. -/
structure Turn where
  message : Message
  queue_full : Bool
  final_text : String
  language : Option String
  speech_end : Bool
  partial_text : String
  is_endpoint : Bool
  summary : Bool

/-- The flags of the session; `force_endpoint` says that the streams of the backend have it. -/
structure Options where
  punct_on : Bool
  spk_on : Bool
  diarize_on : Bool
  vad_session : Bool
  force_endpoint : Bool

/-- A stream of the backend: what it accepted, and how often it was closed. -/
structure Stream where
  fed : List Chunk
  closes : ℕ

/-- A final, with the audio and the window that `_augment_final_payload` is given, in samples. -/
structure Final where
  text : String
  language : Option String
  endpoint : Option String
  seg : List Chunk
  seg_start : ℕ
  seg_end : ℕ

inductive Frame where
  | reset
  | partial_text (text : String)
  | final (f : Final)
  | vad_endpoint
  | busy (endpoint : String)
  | summary
  | error
  | close (code : ℕ)

/-- `old` are the streams that `stream` replaced. `received` is not in the source: the audio that was
    taken up. -/
structure Session where
  old : List Stream
  stream : Stream
  seg : List Chunk
  t_samples : ℕ
  payload : Option Final
  asr_close_code : Option ℕ
  frames : List Frame
  received : List Chunk

def fresh : Stream := ⟨[], 0⟩

/-- After the first `create_stream`. -/
def init : Session := ⟨[], fresh, [], 0, none, none, [], []⟩

namespace Session

def sent (s : Session) (f : Frame) : Session := { s with frames := s.frames ++ [f] }

def close_stream (s : Session) : Session := { s with stream := { s.stream with closes := s.stream.closes + 1 } }

def create_stream (s : Session) : Session := { s with old := s.old ++ [s.stream], stream := fresh }

def clear_seg (s : Session) : Session := { s with seg := [] }

/-- `_seg_window()`, and the payload of a final. -/
def build (s : Session) (text : String) (language endpoint : Option String) : Session :=
  { s with payload := some ⟨text, language, endpoint, s.seg, s.t_samples - s.seg.flatten.length, s.t_samples⟩ }

def send_payload (s : Session) : Session :=
  { s with frames := s.frames ++ s.payload.toList.map .final, payload := none }

/-- `_seg.append(samples)` and `_t_samples += len(samples)`. -/
def buffer (s : Session) (spk_on : Bool) (samples : Chunk) : Session :=
  { s with received := s.received ++ [samples],
           seg := if spk_on then s.seg ++ [samples] else s.seg,
           t_samples := if spk_on then s.t_samples + samples.length else s.t_samples }

def accept_waveform (s : Session) (samples : Chunk) : Session :=
  { s with stream := { s.stream with fed := s.stream.fed ++ [samples] } }

end Session

abbrev Code := Flow Session Failure

def send (f : Frame) : Code := .seq .call (.act (·.sent f))

/-- What is raised is logged, unless it is a cancellation. -/
def attempt (p : Code) : Code := .handle Failure.is_exception p fun _ => .skip

/-- The old stream is closed, and a new one created. -/
def rearm : Code := .seq (.act .close_stream) (.seq .call (.act .create_stream))

def rearm_clear : Code := .seq rearm (.act .clear_seg)

def send_asr_busy (reason : String) : Code := attempt (send (.busy reason))

def augment_final_payload (o : Options) : Code :=
  if o.punct_on || o.spk_on then attempt .call else .skip

/-- The slot, `prepare_finalize` and `finalize`. -/
def finalize : Code := .seq .call (.seq .call .call)

/-- The final of an utterance whose stream goes on, or was the last. -/
def final_and_clear (o : Options) (text : String) (language : Option String) : Code :=
  .seq (.act (·.build text language none)) <|
  .seq (augment_final_payload o) <|
  .seq (.act .clear_seg) <|
  .seq .call (.act .send_payload)

def on_command (o : Options) (t : Turn) : Command → Code
  | .not_json => .skip
  | .not_object => .throw .error
  | .reset => .seq rearm_clear (send .reset)
  | .end_utterance =>
    if t.queue_full then .seq (send_asr_busy "end_utterance") rearm_clear
    else if o.force_endpoint then .seq (.seq .call .call) (final_and_clear o t.final_text none)
    else .seq finalize (final_and_clear o t.final_text t.language)
  | .bad_type => .throw .error
  | .other => .skip

/-- The empty message: `break`, with or without a final. -/
def on_end (o : Options) (t : Turn) : Code :=
  if t.queue_full then .seq (send_asr_busy "eos") .ret
  else
    .seq finalize <|
    .seq (final_and_clear o t.final_text t.language) <|
    .seq (if o.diarize_on && t.summary then attempt (send .summary) else .skip) .ret

/-- The end of speech by the VAD. A final that cannot be sent ends the session. -/
def on_speech_end (o : Options) (t : Turn) : Code :=
  .seq (send .vad_endpoint) <|
  if t.queue_full then .seq (send_asr_busy "vad") rearm_clear
  else
    .seq finalize <|
    .seq (.handle Failure.is_exception
      (.seq (.act (·.build t.final_text t.language (some "vad"))) <|
        .seq (augment_final_payload o) (.seq .call (.act .send_payload)))
      fun _ => .ret)
    rearm_clear

def on_result (o : Options) (t : Turn) : Code :=
  .seq .call <|
  if t.partial_text = "" then .skip
  else if t.is_endpoint then .seq (final_and_clear o t.partial_text none) rearm
  else send (.partial_text t.partial_text)

def on_audio (o : Options) (t : Turn) (samples : Chunk) : Code :=
  .seq (.act (·.buffer o.spk_on samples)) <|
  .seq .call <|
  .seq (.act (·.accept_waveform samples)) <|
  .seq (if o.vad_session then .call else .skip)
    (if o.vad_session && t.speech_end then on_speech_end o t else on_result o t)

def on_message (o : Options) (t : Turn) : Code :=
  match t.message with
  | .text cmd => on_command o t cmd
  | .disconnect => .ret
  | .no_data => .skip
  | .bytes [] => on_end o t
  | .bytes data =>
    match frombuffer data with
    | none => .throw .error
    | some samples => on_audio o t samples

/-- `while True`, for the messages that come. -/
def rounds (o : Options) : List Turn → Code
  | [] => .skip
  | t :: turns => .seq .call (.seq (on_message o t) (rounds o turns))

/-- What is done with an exception that left the loop. -/
def on_failure : Failure → Code
  | .pool_saturated => .act fun s => { s with asr_close_code := some 4429 }
  | .error => attempt (send .error)
  | .disconnect | .cancelled => .skip

/-- `await ws.close(...)`. -/
def close_ws : Code := .seq .call (.act fun s => s.sent (.close (s.asr_close_code.getD 1000)))

/-- The session, when `ws.receive` raises after the messages. -/
def asr_stream_backend (o : Options) (turns : List Turn) : Code :=
  .ensure
    (.handle Failure.is_exception (.seq (rounds o turns) (.seq .call (.throw .disconnect))) on_failure)
    (.seq (.act .close_stream) (attempt close_ws))

/-! ### What a session has done -/

def Frame.final? : Frame → Option Final
  | .final f => some f
  | _ => none

namespace Session

/-- All that the streams accepted, one after the other. -/
def fed (s : Session) : List Chunk := (s.old ++ [s.stream]).flatMap Stream.fed

def finals (s : Session) : List Final := s.frames.filterMap Frame.final?

end Session

/-- The audio of a message. -/
def audio (t : Turn) : List Chunk :=
  match t.message with
  | .bytes (b :: data) => (frombuffer (b :: data)).toList
  | _ => []

/-- An utterance is dropped: a reset, or an end of it that finds the gate full. -/
def drops (t : Turn) : Bool := t.queue_full || t.message == .text .reset

/-- The ends of a piece of code: how it finished, and how else it ended. -/
def Ends (P R : Session → Prop) : Outcome Failure → Session → Prop
  | .done => P
  | _ => R

section
variable {A P P' M R R' : Session → Prop} {p q : Code}

theorem ends_seq (hp : Triple A P p (Ends M R)) (hq : Triple A M q (Ends P' R)) :
    Triple A P (.seq p q) (Ends P' R) :=
  triple_seq (hp.mono (fun _ h => h) fun o _ h => by cases o <;> exact h) hq

theorem ends_call (hA : ∀ s, P s → A s) (hR : ∀ s, P s → R s) : Triple A P .call (Ends P R) :=
  triple_call hA (fun _ h => h) fun _ s h => hR s h

theorem ends_act {f : Session → Session} (h : ∀ s, P s → P' (f s)) : Triple A P (.act f) (Ends P' R) :=
  triple_act h

theorem ends_weaken (hp : Triple A P p (Ends P' R)) (hR : ∀ s, R s → R' s) : Triple A P p (Ends P' R') :=
  hp.mono (fun _ h => h) fun o s h => by
    cases o with
    | done => exact h
    | returned => exact hR s h
    | raised => exact hR s h

theorem ends_same {o : Outcome Failure} {s : Session} (h : Ends P P o s) : P s := by cases o <;> exact h

/-- Whatever is caught, and wherever it was raised. -/
theorem ends_handle {catches : Failure → Bool} {h : Failure → Code} (hp : Triple A P p (Ends P' R))
    (hh : ∀ e, Triple A R (h e) (Ends P' R)) : Triple A P (.handle catches p h) (Ends P' R) :=
  triple_handle (M := fun _ => R) (hp.mono (fun _ h => h) fun o _ h => by
    cases o with
    | done => exact h
    | returned => exact h
    | raised e =>
      simp only [Caught]
      split <;> exact h) fun e _ => hh e

/-- What is logged leaves what it found. -/
theorem ends_attempt (hp : Triple A P p (Ends P P)) : Triple A P (attempt p) (Ends P P) :=
  ends_handle hp fun _ => triple_skip fun _ h => h

theorem ends_send {f : Frame} (hA : ∀ s, P s → A s) (h : ∀ s, P s → P (s.sent f)) :
    Triple A P (send f) (Ends P P) :=
  ends_seq (ends_call hA fun _ h => h) (ends_act h)

end

end LocalVoice.AsrStream
