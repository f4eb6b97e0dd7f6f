import LocalVoice.V2V.Chunks
import LocalVoice.Lib.Run

/-! The TTS side of a multi-utterance `/v2v/stream` session: the dispatcher, which chunks text into
    sentences and queues them, `tts_out_task`, which takes them off the queue, and the `drain()` task
    that speaks one sentence. They interleave at their awaits; a put on the unbounded `tts_q` does
    not suspend. `wait_for` runs `tts_q.get()` as a task of its own, so a sentence can be off the
    queue (`taken`) before `tts_out_task` goes on.

        tts_out_task:  head ──▶ waiting ──▶ taken ──▶ draining ──▶ head
                         └─▶ sending_done ─▶ head          └──▶ expired ──▶ reporting ──▶ head

    `aborts`, `flushes`, `queued` and `log` are not in the source: they count the frames that have
    been handled and keep what happened, in order. -/

namespace LocalVoice.V2V.Speech
open LocalVoice.Lib

/-- A character of the client's text, and how many aborts had been handled when it came. -/
abbrev Mark := Char × ℕ

/-- A sentence on its way, the `number`-th to be queued, after `turn` flushes. -/
structure Sentence where
  number : ℕ
  text : List Mark
  turn : ℕ
  deriving DecidableEq

/-- How far a `drain()` has come; it starts the synthesis with `tts_started`. -/
inductive Stage where
  | preparing
  | synthesizing
  | over
  | failed
  deriving DecidableEq

structure Drain where
  sentence : Sentence
  stage : Stage
  cancelled : Bool
  deriving DecidableEq

/-- `task.done()`. -/
def Drain.done (d : Drain) : Bool := d.stage = .over ∨ d.stage = .failed

def Drain.cancel (d : Drain) : Drain := if d.done then d else { d with cancelled := true }

/-- The dispatcher between two frames, or suspended in one. -/
inductive Dispatcher where
  | receive
  /-- `send_json` of `conversation.reset`'s answer. -/
  | resetting
  /-- An abort that still cancels the ASR utterance. -/
  | aborting
  deriving DecidableEq

/-- Where `tts_out_task` is suspended. -/
inductive TtsOut where
  | head
  | sending_done
  | waiting
  | taken (sentence : Sentence)
  | draining
  | expired
  | reporting
  | ended
  deriving DecidableEq

/-- What happened, as far as the order matters. `started` notes the aborts handled so far. -/
inductive Event where
  | queued (sentence : Sentence)
  | flushed
  | started (sentence : Sentence) (aborts : ℕ)
  | finished (sentence : Sentence)
  | done
  deriving DecidableEq

structure Config where
  tts_buffer : LowLatencyTTSBuffer
  isalnum : Char → Bool

/-- An English session with the default limits. -/
def english : Config := ⟨.post_init "en" none none none, Char.isAlphanum⟩

structure Session where
  /-- What `tts_buffer` holds. -/
  buffer : List Mark
  tts_q : List Sentence
  tts_flush : Bool
  current_tts_task : Option Drain
  tts_out : TtsOut
  dispatcher : Dispatcher
  aborts : ℕ
  flushes : ℕ
  queued : ℕ
  log : List Event
  deriving DecidableEq

def Session.init : Session := ⟨[], [], false, none, .head, .receive, 0, 0, 0, []⟩

inductive Action where
  | text (text : List Char)
  | tts_flush
  | direct_speak (text : List Char)
  /-- Also `response.cancel` and `input_audio_buffer.clear`; `asr`: an utterance is to be
      cancelled, too. -/
  | abort (asr : Bool)
  | conversation_reset
  | reset_sent (asr : Bool)
  | asr_cancelled
  /-- A speech start of the frontend VAD. -/
  | barge_in
  /-- `tts_out_task` starts a pass of its loop. -/
  | pass
  | done_sent
  | get
  | get_timeout
  | take_up
  | drain_over
  | deadline
  | expired_over (late : Bool)
  | reported
  | synth_starts
  | synth_ends
  | drain_stops
  | drain_fails
  deriving DecidableEq

namespace Session

/-! The dispatcher -/

def put (s : Session) (text : List Mark) : Session :=
  { s with
    queued := s.queued + 1
    tts_q := s.tts_q ++ [⟨s.queued, text, s.flushes⟩]
    log := s.log ++ [.queued ⟨s.queued, text, s.flushes⟩] }

/-- The sentences of a call of `tts_buffer` are put on the queue. -/
def put_all (s : Session) (out : List (List Mark) × List Mark) : Session :=
  out.1.foldl put { s with buffer := out.2 }

/-- What `tts_buffer.add` makes of a text that comes now. -/
def added (cfg : Config) (s : Session) (text : List Char) : List (List Mark) × List Mark :=
  cfg.tts_buffer.add Prod.fst cfg.isalnum s.buffer (text.map fun c => (c, s.aborts))

def add (cfg : Config) (s : Session) (text : List Char) : Session := s.put_all (s.added cfg text)

def flush (cfg : Config) (s : Session) : Session :=
  s.put_all (cfg.tts_buffer.flush Prod.fst cfg.isalnum s.buffer)

def set_flush (s : Session) : Session :=
  { s with tts_flush := true, flushes := s.flushes + 1, log := s.log ++ [.flushed] }

def cancel_current (s : Session) : Session :=
  { s with current_tts_task := s.current_tts_task.map Drain.cancel }

/-- The TTS part of `CLIENT_ABORT`; the abort is handled once the ASR part is over, too. -/
def abort (s : Session) (asr : Bool) : Session :=
  if asr then { s.cancel_current with tts_q := [], dispatcher := .aborting }
  else { s.cancel_current with tts_q := [], dispatcher := .receive, aborts := s.aborts + 1 }

/-! `drain()` -/

/-- The current drain moves on, when it is where it has to be. -/
def drain (s : Session) (ready : Drain → Bool) (stage : Stage) (e : Drain → Event) :
    Option Session :=
  match s.current_tts_task with
  | some d =>
    if ready d then
      some { s with
        current_tts_task := some { d with stage := stage }
        log := s.log ++ [e d] }
    else none
  | none => none

/-! `tts_out_task` -/

/-- The top of the loop: the flag is looked at with an empty queue only. -/
def pass (s : Session) : Session :=
  if s.tts_flush ∧ s.tts_q = [] then { s with tts_flush := false, tts_out := .sending_done }
  else { s with tts_out := .waiting }

/-- `wait_for(task)` is over; an exception of the drain ends `tts_out_task`. -/
def drained (s : Session) : Option Session :=
  match s.current_tts_task.map Drain.stage with
  | some .over => some { s with current_tts_task := none, tts_out := .head }
  | some .failed => some { s with current_tts_task := none, tts_out := .ended }
  | _ => none

def step (cfg : Config) (s : Session) : Action → Option Session
  | .text text => if s.dispatcher = .receive then some (s.add cfg text) else none
  | .tts_flush => if s.dispatcher = .receive then some (s.flush cfg).set_flush else none
  | .direct_speak text =>
    if s.dispatcher = .receive then
      if text = [] then some s.set_flush else some ((s.add cfg text).flush cfg).set_flush
    else none
  | .abort asr => if s.dispatcher = .receive then some (s.abort asr) else none
  | .conversation_reset =>
    if s.dispatcher = .receive then some { s with dispatcher := .resetting } else none
  | .reset_sent asr => if s.dispatcher = .resetting then some (s.abort asr) else none
  | .asr_cancelled =>
    if s.dispatcher = .aborting then
      some { s with dispatcher := .receive, aborts := s.aborts + 1 }
    else none
  | .barge_in => if s.dispatcher = .receive then some s.cancel_current else none
  | .pass => if s.tts_out = .head then some s.pass else none
  | .done_sent =>
    if s.tts_out = .sending_done then
      some { s with tts_out := .head, log := s.log ++ [.done] }
    else none
  | .get =>
    match s.tts_out, s.tts_q with
    | .waiting, sentence :: rest => some { s with tts_q := rest, tts_out := .taken sentence }
    | _, _ => none
  | .get_timeout => if s.tts_out = .waiting then some { s with tts_out := .head } else none
  | .take_up =>
    match s.tts_out with
    | .taken sentence =>
      some { s with
        current_tts_task := some ⟨sentence, .preparing, false⟩
        tts_out := .draining }
    | _ => none
  | .drain_over => if s.tts_out = .draining then s.drained else none
  | .deadline =>
    if s.tts_out = .draining then some { s.cancel_current with tts_out := .expired } else none
  | .expired_over late =>
    if s.tts_out = .expired then
      if late then
        if s.current_tts_task.any Drain.done then some { s with tts_out := .reporting } else none
      else s.drained
    else none
  | .reported =>
    if s.tts_out = .reporting then some { s with current_tts_task := none, tts_out := .head }
    else none
  | .synth_starts =>
    s.drain (fun d => d.stage = .preparing ∧ d.cancelled = false) .synthesizing
      fun d => .started d.sentence s.aborts
  | .synth_ends => s.drain (fun d => d.stage = .synthesizing) .over fun d => .finished d.sentence
  | .drain_stops =>
    s.drain (fun d => d.done = false ∧ d.cancelled = true) .over fun d => .finished d.sentence
  | .drain_fails => s.drain (fun d => d.done = false) .failed fun d => .finished d.sentence

end Session

/-- One step of the session. -/
def Steps (cfg : Config) (s : Session) (a : Action) (t : Session) : Prop := s.step cfg a = some t

/-- The sentence off the queue that has no drain yet. -/
def Session.taken (s : Session) : Option Sentence :=
  match s.tts_out with
  | .taken x => some x
  | _ => none

/-- From the opening of a session, the actions `as` can lead to `s`. -/
def Runs (cfg : Config) (as : List Action) (s : Session) : Prop := Run (Steps cfg) .init as s

section
variable {cfg : Config} {s t : Session}

/-- What a `put_all` does: the new sentences, in the current turn, come last. -/
theorem put_all_spec (out : List (List Mark) × List Mark) : ∃ new : List Sentence,
    s.put_all out = { s with
      buffer := out.2
      queued := s.queued + new.length
      tts_q := s.tts_q ++ new
      log := s.log ++ new.map .queued } ∧
    new.map Sentence.text = out.1 ∧ ∀ x ∈ new, x.turn = s.flushes := by
  obtain ⟨parts, rest⟩ := out
  have hfold : ∀ u : Session, ∃ new : List Sentence,
      parts.foldl Session.put u = { u with
        queued := u.queued + new.length
        tts_q := u.tts_q ++ new
        log := u.log ++ new.map .queued } ∧
      new.map Sentence.text = parts ∧ ∀ x ∈ new, x.turn = u.flushes := by
    induction parts with
    | nil => exact fun u => ⟨[], by simp, rfl, nofun⟩
    | cons part parts ih =>
      intro u
      obtain ⟨new, heq, htext, hturn⟩ := ih (u.put part)
      refine ⟨⟨u.queued, part, u.flushes⟩ :: new, ?_, ?_, ?_⟩
      · rw [List.foldl_cons, heq]
        simp [Session.put, Nat.add_assoc, Nat.add_comm 1]
      · rw [List.map_cons, htext]
      · intro x hx
        rcases List.mem_cons.1 hx with rfl | hx
        · rfl
        · exact hturn x hx
  exact hfold { s with buffer := rest }

theorem put_all_frame (out : List (List Mark) × List Mark) :
    (s.put_all out).dispatcher = s.dispatcher ∧ (s.put_all out).tts_flush = s.tts_flush := by
  obtain ⟨new, heq, _⟩ := put_all_spec (s := s) out
  rw [heq]
  exact ⟨rfl, rfl⟩

/-- A step that is only taken from the right place. -/
theorem guarded {p : Prop} [Decidable p] {u : Session} (h : (if p then some u else none) = some t) :
    p ∧ u = t := by
  split at h
  · next hp => exact ⟨hp, Option.some.inj h⟩
  · cases h

theorem drain_cases {ready : Drain → Bool} {stage : Stage} {e : Drain → Event}
    (h : s.drain ready stage e = some t) : ∃ d, s.current_tts_task = some d ∧ ready d = true ∧
      t = { s with current_tts_task := some { d with stage := stage }, log := s.log ++ [e d] } := by
  unfold Session.drain at h
  split at h
  · next d hd =>
    split at h
    · next hready => exact ⟨d, hd, hready, (Option.some.inj h).symm⟩
    · cases h
  · cases h

theorem drained_cases (h : s.drained = some t) : ∃ d out, s.current_tts_task = some d ∧
    d.done = true ∧ (out = .head ∨ out = .ended) ∧
    t = { s with current_tts_task := none, tts_out := out } := by
  unfold Session.drained at h
  split at h
  · next hd =>
    obtain ⟨d, hd, hstage⟩ := Option.map_eq_some_iff.1 hd
    exact ⟨d, .head, hd, by simp [Drain.done, hstage], .inl rfl, (Option.some.inj h).symm⟩
  · next hd =>
    obtain ⟨d, hd, hstage⟩ := Option.map_eq_some_iff.1 hd
    exact ⟨d, .ended, hd, by simp [Drain.done, hstage], .inr rfl, (Option.some.inj h).symm⟩
  · cases h

end
end LocalVoice.V2V.Speech
