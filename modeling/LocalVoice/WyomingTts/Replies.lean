import LocalVoice.Lib.PyInt
import LocalVoice.WyomingTts.Clause

/-! `SlvTtsHandler` of `services/wyoming-adapter/wyoming_slv/tts.py`: one handler for a connection,
    which speaks streamed replies clause by clause and one-shot replies whole. Every request to
    `/tts/stream` and every event to the client is put out in order; what the service answers to the
    `n`-th request of the connection is given by `up n`. -/

namespace LocalVoice.WyomingTts
open LocalVoice.Lib LocalVoice.Lib.PyText

/-- A `SynthesizeVoice`. -/
structure Voice where
  language : Option String
  speaker : Option String
  deriving DecidableEq

/-- What the client sends. -/
inductive Event where
  | describe
  | synthesize_start (voice : Option Voice)
  | synthesize_chunk (text : List Char)
  | synthesize (text : List Char) (voice : Option Voice)
  | synthesize_stop

/-- What the handler does: a request to `/tts/stream`, or an event to the client. -/
inductive Out where
  | info
  | request (text : List Char) (speaker_id : Option ℤ)
  | audio_start (rate : ℕ)
  | audio_chunk (rate : ℕ) (audio : List UInt8)
  | audio_stop
  | synthesize_stopped
  deriving DecidableEq

/-- The answer to a request: the PCM chunks that arrive, and whether the answer ends well. -/
structure Answer where
  frames : List (ℕ × List UInt8)
  ok : Bool

/-- The handler's fields, and the number of requests made on the connection. -/
structure Handler where
  streaming : Bool
  synthesized_any : Bool
  audio_started : Bool
  sample_rate : ℕ
  buffer : Option ClauseBuffer
  speaker_id : Option ℤ
  total_bytes : ℕ
  asked : ℕ
  deriving DecidableEq

/-- A handler that was just reset. -/
def Handler.fresh (asked : ℕ) : Handler := ⟨false, false, false, 0, none, none, 0, asked⟩

/-- `_reset`. -/
def Handler.reset (h : Handler) : Handler := .fresh h.asked

/-- `_speaker_from_voice`. -/
def speaker_from_voice (speaker : Option String) : Option ℤ :=
  match speaker with
  | none => none
  | some s => if s = "" then none else PyText.int s

/-- The body of the `async for` over a request's answer. -/
def Handler.play (h : Handler) (frame : ℕ × List UInt8) : Handler × List Out :=
  let started := if h.audio_started then [] else [Out.audio_start frame.1]
  let rate := if h.audio_started then h.sample_rate else frame.1
  ({ h with
      sample_rate := rate
      audio_started := true
      total_bytes := h.total_bytes + frame.2.length },
    started ++ [.audio_chunk rate frame.2])

/-- The `async for` over a request's answer. -/
def Handler.play_all (h : Handler) : List (ℕ × List UInt8) → Handler × List Out
  | [] => (h, [])
  | frame :: rest =>
    let out := (h.play frame).1.play_all rest
    (out.1, (h.play frame).2 ++ out.2)

section
variable (env : Bool → Limits) (up : ℕ → Answer)

/-- `_synthesize_clause`. -/
def Handler.synthesize_clause (h : Handler) (text : List Char) : Handler × List Out :=
  let text := strip_chars text
  if text = [] then (h, [])
  else
    let answer := up h.asked
    let out := ({ h with asked := h.asked + 1 } : Handler).play_all answer.frames
    ({ out.1 with synthesized_any := answer.ok || out.1.synthesized_any },
      .request text h.speaker_id :: out.2)

/-- A clause after the other. -/
def Handler.synthesize_clauses (h : Handler) : List (List Char) → Handler × List Out
  | [] => (h, [])
  | clause :: rest =>
    let out := (h.synthesize_clause up clause).1.synthesize_clauses rest
    (out.1, (h.synthesize_clause up clause).2 ++ out.2)

/-- `_finish`. -/
def Handler.finish (h : Handler) : Handler × List Out :=
  if h.audio_started then ({ h with audio_started := false }, [.audio_stop]) else (h, [])

/-- The part of a full `synthesize` that speaks. -/
def Handler.speak (h : Handler) (text : List Char) (voice : Option Voice) : Handler × List Out :=
  let h := match voice with
    | some v => { h with speaker_id := speaker_from_voice v.speaker }
    | none => h
  let out := h.synthesize_clause up text
  (out.1.finish.1.reset, out.2 ++ out.1.finish.2)

/-- `handle_event`. -/
def Handler.handle_event (h : Handler) : Event → Handler × List Out
  | .describe => (h, [.info])
  | .synthesize_start voice =>
    -- the speaker is set, and reset with everything else
    let h : Handler := match voice with
      | some v => { h with speaker_id := speaker_from_voice v.speaker }
      | none => h
    ({ h.reset with
        streaming := true
        buffer := some (.new env (voice.bind (·.language))) }, [])
  | .synthesize_chunk text =>
    let h : Handler := match h.buffer with
      | some _ => h
      | none => { h with streaming := true, buffer := some (.new env none) }
    match h.buffer with
    | none => (h, [])
    | some b => ({ h with buffer := some (b.add text).2 } : Handler).synthesize_clauses up (b.add text).1
  | .synthesize_stop =>
    let out := match h.buffer with
      | some b => ({ h with buffer := some b.flush.2 } : Handler).synthesize_clauses up b.flush.1
      | none => (h, [])
    (out.1.finish.1.reset, out.2 ++ out.1.finish.2 ++ [.synthesize_stopped])
  | .synthesize text voice =>
    if h.streaming then
      if h.synthesized_any then (h, []) else h.speak up text voice
    else h.reset.speak up text voice

/-- Events one after the other. -/
def Handler.handle_all (h : Handler) : List Event → Handler × List Out
  | [] => (h, [])
  | e :: rest =>
    let out := (h.handle_event env up e).1.handle_all rest
    (out.1, (h.handle_event env up e).2 ++ out.2)

end

/-! Replies on one connection. What a reply asks `/tts/stream` for is computed here from the reply and
    the answers alone (`Reply.asks`), and the handler is shown to make these requests, to bracket its
    audio, and to leave nothing behind (`reply_run`). `replies_spoken_iff` says which replies are spoken
    as they should be: a streamed reply loses the speaker that came with its start, and a reply whose
    first clauses all failed is spoken whole again, also where some of their audio was sent.

        start ─▶ chunk* ─▶ synthesize (repeat) ─▶ stop
                  │             │ ignored once a clause went well
                  │ clauses     └ else: the whole text again
                  ▼
                requests -/

/-- A reply: streamed, with the complete text repeated in a `synthesize` that carries the voice or not,
    or not repeated at all; or one-shot. -/
inductive Reply where
  | streamed (voice : Option Voice) (chunks : List (List Char)) (repeated : Option Bool)
  | one_shot (text : List Char) (voice : Option Voice)

namespace Reply

/-- The complete text. -/
def text : Reply → List Char
  | .streamed _ chunks _ => chunks.flatten
  | .one_shot text _ => text

/-- The speaker that was asked for. -/
def speaker : Reply → Option ℤ
  | .streamed voice _ _ => voice.bind fun v => speaker_from_voice v.speaker
  | .one_shot _ voice => voice.bind fun v => speaker_from_voice v.speaker

/-- The events of a reply. -/
def events : Reply → List Event
  | .streamed voice chunks repeated =>
    .synthesize_start voice :: (chunks.map .synthesize_chunk ++
      ((repeated.map fun b => .synthesize chunks.flatten (if b then voice else none)).toList ++
        [.synthesize_stop]))
  | .one_shot text voice => [.synthesize text voice]

end Reply

/-! ### What is put out -/

/-- A request: its text and its speaker. -/
abbrev Request := List Char × Option ℤ

def Out.as_request : Out → Option Request
  | .request text speaker_id => some (text, speaker_id)
  | _ => none

def Out.is_audio : Out → Bool
  | .audio_start _ => true
  | .audio_chunk _ _ => true
  | .audio_stop => true
  | _ => false

/-- The requests among what is put out. -/
def requests (l : List Out) : List Request := l.filterMap Out.as_request

/-- The audio events among what is put out. -/
def audio (l : List Out) : List Out := l.filter Out.is_audio

@[simp] theorem requests_append (l m : List Out) : requests (l ++ m) = requests l ++ requests m :=
  List.filterMap_append ..

@[simp] theorem audio_append (l m : List Out) : audio (l ++ m) = audio l ++ audio m :=
  List.filter_append ..

/-- No audio, or chunks of one rate between a start and a stop. -/
def Bracketed (l : List Out) : Prop :=
  audio l = [] ∨ ∃ rate pcm,
    audio l = .audio_start rate :: List.map (Out.audio_chunk rate) pcm ++ [.audio_stop]

/-- The audio of a reply so far, and what the handler says about it. -/
def AudioSoFar (h : Handler) (l : List Out) : Prop :=
  h.audio_started = false ∧ audio l = [] ∨
    h.audio_started = true ∧ ∃ pcm,
      audio l = .audio_start h.sample_rate :: List.map (Out.audio_chunk h.sample_rate) pcm

theorem AudioSoFar.play {h : Handler} {l : List Out} (hl : AudioSoFar h l)
    (frame : ℕ × List UInt8) : AudioSoFar (h.play frame).1 (l ++ (h.play frame).2) := by
  refine Or.inr ⟨rfl, ?_⟩
  rcases hl with ⟨hstarted, haudio⟩ | ⟨hstarted, pcm, haudio⟩
  · refine ⟨[frame.2], ?_⟩
    rw [audio_append, haudio]
    simp [Handler.play, hstarted, audio, Out.is_audio]
  · refine ⟨pcm ++ [frame.2], ?_⟩
    rw [audio_append, haudio]
    simp [Handler.play, hstarted, audio, Out.is_audio]

theorem AudioSoFar.play_all {h : Handler} {l : List Out} (hl : AudioSoFar h l)
    (frames : List (ℕ × List UInt8)) :
    AudioSoFar (h.play_all frames).1 (l ++ (h.play_all frames).2) := by
  induction frames generalizing h l with
  | nil => simpa [Handler.play_all] using hl
  | cons frame rest ih =>
    have hrest := ih (hl.play frame)
    rwa [List.append_assoc] at hrest

/-- The handler's fields that only the audio touches. -/
theorem play_all_fields (h : Handler) (frames : List (ℕ × List UInt8)) :
    (h.play_all frames).1.streaming = h.streaming ∧
      (h.play_all frames).1.synthesized_any = h.synthesized_any ∧
      (h.play_all frames).1.buffer = h.buffer ∧ (h.play_all frames).1.speaker_id = h.speaker_id ∧
      (h.play_all frames).1.asked = h.asked ∧ requests (h.play_all frames).2 = [] := by
  induction frames generalizing h with
  | nil => simp [Handler.play_all, requests]
  | cons frame rest ih =>
    obtain ⟨h1, h2, h3, h4, h5, h6⟩ := ih (h.play frame).1
    have hplay : requests (h.play frame).2 = [] := by
      unfold Handler.play
      split <;> simp [requests, Out.as_request]
    refine ⟨h1, h2, h3, h4, h5, ?_⟩
    rw [Handler.play_all, requests_append, hplay, h6, List.nil_append]

/-! ### Clauses -/

/-- The clauses that are worth a request. -/
def spoken (clauses : List (List Char)) : List (List Char) :=
  (clauses.map strip_chars).filter (· ≠ [])

@[simp] theorem spoken_nil : spoken [] = [] := rfl

@[simp] theorem spoken_append (a b : List (List Char)) : spoken (a ++ b) = spoken a ++ spoken b := by
  simp [spoken]

theorem spoken_cons (a : List Char) (b : List (List Char)) :
    spoken (a :: b) = (if strip_chars a = [] then [] else [strip_chars a]) ++ spoken b := by
  by_cases h : strip_chars a = [] <;> simp [spoken, h]

theorem nospace_spoken (clauses : List (List Char)) :
    (spoken clauses).flatMap nospace = clauses.flatMap nospace := by
  induction clauses with
  | nil => rfl
  | cons a b ih =>
    rw [spoken_cons, List.flatMap_append, ih, List.flatMap_cons]
    split
    · rename_i h
      rw [← nospace_strip_chars a, h]
      rfl
    · simp

/-- A spoken clause has a character that is no whitespace. -/
theorem nospace_ne_nil {clauses : List (List Char)} {text : List Char} (h : text ∈ spoken clauses) :
    nospace text ≠ [] := by
  obtain ⟨hmem, hne⟩ := List.mem_filter.1 h
  obtain ⟨clause, -, rfl⟩ := List.mem_map.1 hmem
  cases hstrip : strip_chars clause with
  | nil => simp [hstrip] at hne
  | cons c rest => simp [nospace_cons, head_strip_chars hstrip]

section
variable (env : Bool → Limits) (up : ℕ → Answer)

/-- What speaking clauses does. -/
structure Said (h : Handler) (clauses : List (List Char)) (out : Handler × List Out) : Prop where
  requests : requests out.2 = (spoken clauses).map fun text => (text, h.speaker_id)
  streaming : out.1.streaming = h.streaming
  speaker_id : out.1.speaker_id = h.speaker_id
  asked : out.1.asked = h.asked + (spoken clauses).length
  any : out.1.synthesized_any = true ↔
    h.synthesized_any = true ∨ ∃ i < (spoken clauses).length, (up (h.asked + i)).ok = true
  audio : ∀ l, AudioSoFar h l → AudioSoFar out.1 (l ++ out.2)

theorem Said.nil (h : Handler) : Said up h [] (h, []) := by
  constructor <;> simp [WyomingTts.requests]

/-- Clauses, and then more of them. -/
theorem Said.trans {h : Handler} {a b : List (List Char)} {out out' : Handler × List Out}
    (h1 : Said up h a out) (h2 : Said up out.1 b out') :
    Said up h (a ++ b) (out'.1, out.2 ++ out'.2) where
  requests := by
    rw [requests_append, h1.requests, h2.requests, h1.speaker_id, spoken_append, List.map_append]
  streaming := h2.streaming.trans h1.streaming
  speaker_id := h2.speaker_id.trans h1.speaker_id
  asked := by rw [h2.asked, h1.asked, spoken_append, List.length_append, Nat.add_assoc]
  any := by
    rw [h2.any, h1.any, h1.asked, spoken_append, List.length_append, or_assoc]
    refine or_congr_right ?_
    constructor
    · rintro (⟨i, hi, hok⟩ | ⟨i, hi, hok⟩)
      · exact ⟨i, by omega, hok⟩
      · exact ⟨(spoken a).length + i, by omega, by rwa [← Nat.add_assoc]⟩
    · rintro ⟨i, hi, hok⟩
      by_cases hlt : i < (spoken a).length
      · exact Or.inl ⟨i, hlt, hok⟩
      · refine Or.inr ⟨i - (spoken a).length, by omega, ?_⟩
        rwa [Nat.add_assoc, Nat.add_sub_cancel' (by omega)]
  audio := by
    intro l hl
    rw [← List.append_assoc]
    exact h2.audio _ (h1.audio l hl)

/-- The buffer plays no part in it. -/
theorem Said.of_buffer {h : Handler} {buffer : Option ClauseBuffer} {clauses : List (List Char)}
    {out : Handler × List Out} (hs : Said up { h with buffer := buffer } clauses out) :
    Said up h clauses out := by
  obtain ⟨h1, h2, h3, h4, h5, h6⟩ := hs
  exact ⟨h1, h2, h3, h4, h5, h6⟩

theorem synthesize_clause_said (h : Handler) (clause : List Char) :
    Said up h [clause] (h.synthesize_clause up clause) ∧
      (h.synthesize_clause up clause).1.buffer = h.buffer := by
  by_cases htext : strip_chars clause = []
  · have hnone : spoken [clause] = [] := by simp [spoken, htext]
    have hout : h.synthesize_clause up clause = (h, []) := by
      simp [Handler.synthesize_clause, htext]
    rw [hout]
    refine ⟨?_, rfl⟩
    constructor <;> simp [hnone, WyomingTts.requests]
  · have hone : spoken [clause] = [strip_chars clause] := by simp [spoken, htext]
    obtain ⟨h1, h2, h3, h4, h5, h6⟩ :=
      play_all_fields { h with asked := h.asked + 1 } (up h.asked).frames
    unfold Handler.synthesize_clause
    rw [if_neg htext]
    refine ⟨⟨?_, h1, h4, ?_, ?_, ?_⟩, h3⟩
    · rw [hone]
      simp only [WyomingTts.requests] at h6
      simp [WyomingTts.requests, Out.as_request, h6]
    · simpa [hone] using h5
    · simp only [hone, List.length_singleton, Bool.or_eq_true, h2]
      constructor
      · rintro (hok | hany)
        · exact Or.inr ⟨0, Nat.one_pos, by simpa using hok⟩
        · exact Or.inl hany
      · rintro (hany | ⟨i, hi, hok⟩)
        · exact Or.inr hany
        · obtain rfl : i = 0 := by omega
          exact Or.inl (by simpa using hok)
    · intro l hl
      have hl' : AudioSoFar { h with asked := h.asked + 1 } (l ++ [.request (strip_chars clause)
          h.speaker_id]) := by
        simpa [AudioSoFar, WyomingTts.audio, Out.is_audio] using hl
      have hplay := hl'.play_all (up h.asked).frames
      rw [List.append_assoc, List.singleton_append] at hplay
      exact hplay

theorem synthesize_clauses_said (clauses : List (List Char)) : ∀ h : Handler,
    Said up h clauses (h.synthesize_clauses up clauses) ∧
      (h.synthesize_clauses up clauses).1.buffer = h.buffer := by
  induction clauses with
  | nil => exact fun h => ⟨Said.nil up h, rfl⟩
  | cons clause rest ih =>
    intro h
    obtain ⟨h1, hb1⟩ := synthesize_clause_said up h clause
    obtain ⟨h2, hb2⟩ := ih (h.synthesize_clause up clause).1
    exact ⟨h1.trans up h2, hb2.trans hb1⟩

/-! ### The chunks of a streamed reply -/

/-- The clauses that chunks bring out of a buffer, and the buffer behind them. -/
def ready (b : ClauseBuffer) : List (List Char) → List (List Char) × ClauseBuffer
  | [] => ([], b)
  | chunk :: rest => ((b.add chunk).1 ++ (ready (b.add chunk).2 rest).1, (ready (b.add chunk).2 rest).2)

theorem ready_keeps (chunks : List (List Char)) : ∀ b : ClauseBuffer,
    (ready b chunks).1.flatMap nospace ++ nospace (ready b chunks).2.buf =
      nospace b.buf ++ nospace chunks.flatten := by
  induction chunks with
  | nil => intro b; simp [ready]
  | cons chunk rest ih =>
    intro b
    rw [ready, List.flatMap_append, List.append_assoc, ih, ← List.append_assoc, b.add_keeps,
      List.flatten_cons, nospace_append, List.append_assoc]

theorem handle_all_append (es es' : List Event) : ∀ h : Handler,
    h.handle_all env up (es ++ es') =
      (((h.handle_all env up es).1.handle_all env up es').1,
        (h.handle_all env up es).2 ++ ((h.handle_all env up es).1.handle_all env up es').2) := by
  induction es with
  | nil => intro h; rfl
  | cons e es ih =>
    intro h
    simp [Handler.handle_all, ih]

theorem chunks_said (chunks : List (List Char)) : ∀ (h : Handler) (b : ClauseBuffer),
    h.buffer = some b →
    Said up h (ready b chunks).1 (h.handle_all env up (chunks.map .synthesize_chunk)) ∧
      (h.handle_all env up (chunks.map .synthesize_chunk)).1.buffer = some (ready b chunks).2 := by
  induction chunks with
  | nil => exact fun h b hb => ⟨Said.nil up h, hb⟩
  | cons chunk rest ih =>
    intro h b hb
    have hevent : h.handle_event env up (.synthesize_chunk chunk) =
        ({ h with buffer := some (b.add chunk).2 } : Handler).synthesize_clauses up
          (b.add chunk).1 := by
      simp [Handler.handle_event, hb]
    obtain ⟨h1, hb1⟩ := synthesize_clauses_said up (b.add chunk).1
      { h with buffer := some (b.add chunk).2 }
    rw [← hevent] at h1 hb1
    obtain ⟨h2, hb2⟩ := ih _ _ hb1
    exact ⟨(h1.of_buffer up).trans up h2, hb2⟩

/-! ### A reply -/

/-- The end of a reply closes the audio that is open. -/
theorem finish_spec (h : Handler) :
    requests h.finish.2 = [] ∧ h.finish.1.reset = .fresh h.asked ∧
      ∀ l, AudioSoFar h l → Bracketed (l ++ h.finish.2) := by
  unfold Handler.finish
  cases hstarted : h.audio_started with
  | false =>
    refine ⟨rfl, rfl, ?_⟩
    rintro l (⟨-, haudio⟩ | ⟨h', -⟩)
    · exact Or.inl (by simpa using haudio)
    · simp [hstarted] at h'
  | true =>
    refine ⟨rfl, rfl, ?_⟩
    rintro l (⟨h', -⟩ | ⟨-, pcm, haudio⟩)
    · simp [hstarted] at h'
    · refine Or.inr ⟨h.sample_rate, pcm, ?_⟩
      rw [audio_append, haudio]
      rfl

/-- The speaker of a voice. -/
def speaker_of (voice : Option Voice) : Option ℤ := voice.bind fun v => speaker_from_voice v.speaker

theorem speak_spec (h : Handler) (text : List Char) (voice : Option Voice) (hs : h.speaker_id = none) :
    requests (h.speak up text voice).2 = (spoken [text]).map (fun t => (t, speaker_of voice)) ∧
      (h.speak up text voice).1 = .fresh (h.asked + (spoken [text]).length) ∧
      ∀ l, AudioSoFar h l → Bracketed (l ++ (h.speak up text voice).2) := by
  obtain ⟨h', hspeaker, hasked, haudio, hspeak⟩ : ∃ h' : Handler, h'.speaker_id = speaker_of voice ∧
      h'.asked = h.asked ∧ (∀ l, AudioSoFar h l → AudioSoFar h' l) ∧
      h.speak up text voice = ((h'.synthesize_clause up text).1.finish.1.reset,
        (h'.synthesize_clause up text).2 ++ (h'.synthesize_clause up text).1.finish.2) := by
    cases voice with
    | none => exact ⟨h, hs, rfl, fun l hl => hl, rfl⟩
    | some v =>
      exact ⟨{ h with speaker_id := speaker_from_voice v.speaker }, rfl, rfl, fun l hl => hl, rfl⟩
  obtain ⟨hsaid, -⟩ := synthesize_clause_said up h' text
  obtain ⟨hreq, hreset, hbracket⟩ := finish_spec (h'.synthesize_clause up text).1
  rw [hspeak]
  refine ⟨?_, ?_, ?_⟩
  · rw [requests_append, hreq, List.append_nil, hsaid.requests, hspeaker]
  · rw [hreset, hsaid.asked, hasked]
  · intro l hl
    rw [← List.append_assoc]
    exact hbracket _ (hsaid.audio l (haudio l hl))

/-- A stop with text pending speaks it. -/
theorem stop_spec (h : Handler) (b : ClauseBuffer) (hb : h.buffer = some b) :
    let out := h.handle_event env up .synthesize_stop
    requests out.2 = (spoken b.flush.1).map (fun t => (t, h.speaker_id)) ∧
      out.1 = .fresh (h.asked + (spoken b.flush.1).length) ∧
      ∀ l, AudioSoFar h l → Bracketed (l ++ out.2) := by
  obtain ⟨hsaid, -⟩ := synthesize_clauses_said up b.flush.1 { h with buffer := some b.flush.2 }
  obtain ⟨hreq, hreset, hbracket⟩ := finish_spec
    (({ h with buffer := some b.flush.2 } : Handler).synthesize_clauses up b.flush.1).1
  simp only [Handler.handle_event, hb]
  refine ⟨?_, ?_, ?_⟩
  · rw [requests_append, requests_append, hreq, hsaid.requests]
    simp [WyomingTts.requests, Out.as_request]
  · rw [hreset, hsaid.asked]
  · intro l hl
    have h' := hbracket _ (hsaid.audio l hl)
    rw [← List.append_assoc, ← List.append_assoc]
    unfold Bracketed at h' ⊢
    rw [audio_append]
    simpa [WyomingTts.audio, Out.is_audio] using h'

/-- What a reply asks `/tts/stream` for, when its first request is the connection's `k`-th. -/
def Reply.asks (k : ℕ) : Reply → List Request
  | .streamed voice chunks repeated =>
    let said := ready (.new env (voice.bind (·.language))) chunks
    let early : List Request := (spoken said.1).map fun t => (t, none)
    let late : List Request := (spoken said.2.flush.1).map fun t => (t, none)
    match repeated with
    | none => early ++ late
    | some b =>
      if ∃ i < (spoken said.1).length, (up (k + i)).ok = true then early ++ late
      else early ++ (spoken [chunks.flatten]).map fun t => (t, speaker_of (if b then voice else none))
  | .one_shot text voice => (spoken [text]).map fun t => (t, speaker_of voice)

/-- A reply makes its requests, brackets its audio, and leaves a handler that was just reset. -/
theorem reply_run (k : ℕ) (r : Reply) :
    let out := (Handler.fresh k).handle_all env up r.events
    requests out.2 = r.asks env up k ∧ Bracketed out.2 ∧
      out.1 = .fresh (k + (r.asks env up k).length) := by
  have hquiet : AudioSoFar (.fresh k) [] := Or.inl ⟨rfl, rfl⟩
  cases r with
  | one_shot text voice =>
    obtain ⟨hreq, hfresh, hbracket⟩ := speak_spec up (.fresh k) text voice rfl
    have hrun : (Handler.fresh k).handle_all env up (Reply.one_shot text voice).events =
        ((Handler.fresh k).speak up text voice) := by
      simp [Reply.events, Handler.handle_all, Handler.handle_event, Handler.fresh, Handler.reset]
    simp only [hrun, Reply.asks]
    rw [List.length_map]
    exact ⟨hreq, by simpa using hbracket [] hquiet, hfresh⟩
  | streamed voice chunks repeated =>
    set b := ClauseBuffer.new env (voice.bind (·.language)) with hb
    set h0 : Handler := { Handler.fresh k with streaming := true, buffer := some b } with hh0
    have hstart : (Handler.fresh k).handle_event env up (.synthesize_start voice) = (h0, []) := by
      cases voice <;> rfl
    obtain ⟨hsaid, hbuf⟩ := chunks_said env up chunks h0 b rfl
    set mid := h0.handle_all env up (chunks.map .synthesize_chunk) with hmid
    have haudio : AudioSoFar mid.1 mid.2 := by
      simpa using hsaid.audio [] (Or.inl ⟨rfl, rfl⟩)
    have hspeaker : mid.1.speaker_id = none := hsaid.speaker_id
    have hearly : requests mid.2 = (spoken (ready b chunks).1).map fun t => (t, none) := hsaid.requests
    have hasked : mid.1.asked = k + (spoken (ready b chunks).1).length := hsaid.asked
    have hany : mid.1.synthesized_any = true ↔
        ∃ i < (spoken (ready b chunks).1).length, (up (k + i)).ok = true := by
      have h := hsaid.any
      simpa [hh0, Handler.fresh] using h
    have hstreaming : mid.1.streaming = true := hsaid.streaming
    have hrun : (Handler.fresh k).handle_all env up (Reply.streamed voice chunks repeated).events =
        ((mid.1.handle_all env up ((repeated.map fun b => Event.synthesize chunks.flatten
            (if b then voice else none)).toList ++ [.synthesize_stop])).1,
          mid.2 ++ (mid.1.handle_all env up ((repeated.map fun b => Event.synthesize chunks.flatten
            (if b then voice else none)).toList ++ [.synthesize_stop])).2) := by
      rw [Reply.events, Handler.handle_all, hstart, handle_all_append]
      rfl
    obtain ⟨sreq, sfresh, sbracket⟩ := stop_spec env up mid.1 _ hbuf
    rw [hspeaker] at sreq
    rw [hasked] at sfresh
    -- with nothing more said before it, the stop speaks what is pending
    have hlate : ∀ out, out = mid.1.handle_all env up [.synthesize_stop] →
        requests (mid.2 ++ out.2) = (spoken (ready b chunks).1).map (fun t => (t, none)) ++
            (spoken (ready b chunks).2.flush.1).map (fun t => (t, none)) ∧
          Bracketed (mid.2 ++ out.2) ∧ out.1 = .fresh (k + (spoken (ready b chunks).1).length +
            (spoken (ready b chunks).2.flush.1).length) := by
      rintro out rfl
      simp only [Handler.handle_all, List.append_nil]
      refine ⟨?_, sbracket _ haudio, sfresh⟩
      rw [requests_append, hearly, sreq]
    rw [hrun]
    cases repeated with
    | none =>
      obtain ⟨h1, h2, h3⟩ := hlate _ rfl
      refine ⟨h1, h2, h3.trans ?_⟩
      simp only [Reply.asks, List.length_append, List.length_map, Nat.add_assoc, hb]
    | some again =>
      simp only [Option.map_some, Option.toList_some, List.cons_append, List.nil_append,
        Handler.handle_all, Handler.handle_event, hstreaming, if_true]
      by_cases hok : ∃ i < (spoken (ready b chunks).1).length, (up (k + i)).ok = true
      · -- the repeat is ignored
        rw [if_pos (hany.2 hok)]
        obtain ⟨h1, h2, h3⟩ := hlate _ rfl
        simp only [Handler.handle_all, Handler.handle_event] at h1 h2 h3
        rw [Reply.asks, ← hb, if_pos hok]
        refine ⟨by simpa using h1, by simpa using h2, ?_⟩
        rw [List.length_append, List.length_map, List.length_map, ← Nat.add_assoc]
        exact h3
      · -- the whole text is spoken, and nothing is pending at the stop
        obtain ⟨preq, pfresh, pbracket⟩ :=
          speak_spec up mid.1 chunks.flatten (if again then voice else none) hspeaker
        rw [if_neg fun h => hok (hany.1 h), pfresh]
        rw [Reply.asks, ← hb, if_neg hok]
        refine ⟨?_, ?_, ?_⟩
        · rw [requests_append, requests_append, hearly, preq]
          simp [Handler.fresh, Handler.finish, requests, Out.as_request]
        · have h := pbracket _ haudio
          unfold Bracketed at h ⊢
          simp only [audio_append] at h ⊢
          simpa [Handler.fresh, Handler.finish, audio, Out.is_audio] using h
        · rw [hasked, List.length_append, List.length_map, List.length_map, ← Nat.add_assoc]
          rfl

end

end LocalVoice.WyomingTts
