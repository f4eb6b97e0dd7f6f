import LocalVoice.V2V.Adapter
import LocalVoice.Lib.Run

/-! The lifecycle of a response on the wire, as a checker that reads the server events, and when the
    adapter's output passes it. A response is opened by the first `tts_started` or `tool_call` and
    closed by the next `tts_done`; a `tts_sentence_done` opens none.

        closed ──response.created──▶ open ──item, delta, sentence, call──▶ open
               ◀──response.done──── (no audio item, or both audio end events) -/

namespace LocalVoice.V2V
open LocalVoice.Lib

namespace RealtimeV2EventAdapter
open Payload ( asr_partial)

/-- The audio item of an open response. -/
inductive Audio where
  | absent
  | announced (output_index : ℕ)
  | transcript_done (output_index : ℕ)
  | done
  deriving DecidableEq

/-- An open response: its id, the next output index, its audio item, the deltas so far. -/
structure Open where
  id : String
  next : ℕ
  audio : Audio
  transcript : String
  deriving DecidableEq

/-- An event that is not about a response. -/
def Payload.aside : Payload → Bool
  | .vad_event _ | .asr_endpoint | asr_partial .. | .asr_final .. | .error .. => true
  | _ => false

/-- No audio end event has been sent. -/
def Open.unfinished (r : Open) : Bool :=
  match r.audio with
  | .absent | .announced _ => true
  | .transcript_done _ | .done => false

/-- One server event; `none` when it is out of place. -/
@[grind =]
def track : Option Open → Event → Option (Option Open)
  | none, .response_created _ id _ => some (some ⟨id, 0, .absent, ""⟩)
  | some r, .output_item_added _ response_id k (.message _) =>
    if response_id = some r.id ∧ k = r.next ∧ r.audio = .absent then
      some (some { r with next := r.next + 1, audio := .announced k })
    else none
  | some r, .output_item_added _ response_id k (.function_call ..) =>
    if response_id = some r.id ∧ k = r.next ∧ r.unfinished then
      some (some { r with next := r.next + 1 })
    else none
  | some r, .audio_transcript_delta _ response_id _ _ delta =>
    if response_id = some r.id ∧ r.unfinished then
      some (some { r with transcript := r.transcript ++ delta })
    else none
  | some r, .audio_transcript_done _ response_id _ k transcript =>
    if response_id = r.id ∧ r.audio = .announced k ∧ transcript = r.transcript then
      some (some { r with audio := .transcript_done k })
    else none
  | some r, .audio_done _ response_id _ k =>
    if response_id = r.id ∧ r.audio = .transcript_done k then
      some (some { r with audio := .done })
    else none
  | some r, .response_done _ id _ _ =>
    if id = r.id ∧ (r.audio = .absent ∨ r.audio = .done) then some none else none
  | some r, .tts_sentence_started _ response_id _ =>
    if response_id = some r.id then some (some r) else none
  | some r, .tts_sentence_done _ response_id _ =>
    if response_id = some r.id then some (some r) else none
  | some r, .function_call_arguments_done _ response_id _ k _ _ _ _ =>
    if response_id = some r.id ∧ k + 1 = r.next then some (some r) else none
  | k, .speech_started .. | k, .speech_stopped .. | k, .committed .. | k, .transcription_delta ..
  | k, .transcription_completed .. | k, .error .. => some k
  | _, _ => none

/-- The events form responses one after the other; the last one may still be open. -/
def WellFormed (events : List Event) : Prop := (replay track none events).isSome

instance (events : List Event) : Decidable (WellFormed events) :=
  inferInstanceAs (Decidable (_ = true))

/-- The adapter's fields are those of the response the checker sees. -/
def Matches (s : Adapter) : Option Open → Prop
  | none =>
    s.active_response_id = none ∧ s.audio_item_announced = false ∧ s.output_item_count = 0
  | some r =>
    s.active_response_id = some r.id ∧ s.output_item_count = r.next ∧
      String.join s.active_transcript = r.transcript ∧
      r.audio = if s.audio_item_announced then .announced s.active_audio_output_index else .absent

/-- Running `p` from `s` sends events that lead the checker from `k` to a state `Q`, which the new
    fields match. -/
def Sends (p : M (List Event)) (s : Adapter) (k : Option Open) (Q : Option Open → Prop) : Prop :=
  ∃ k', replay track k (exec p s).1 = some k' ∧ Matches (exec p s).2 k' ∧ Q k'

section
variable (id_factory : String → ℕ → String) {s : Adapter} {k : Option Open}

theorem Matches.unfinished {r : Open} (h : Matches s (some r)) : r.unfinished = true := by
  obtain ⟨_, _, _, haudio⟩ := h
  unfold Open.unfinished
  rw [haudio]
  cases s.audio_item_announced <;> rfl

theorem ensure_response_created_sends (h : Matches s k) :
    Sends (ensure_response_created id_factory) s k fun k' => k'.isSome := by
  cases k with
  | none =>
    obtain ⟨hid, haudio, hcount⟩ := h
    refine ⟨some ⟨id_factory "resp" s.id_calls, 0, .absent, ""⟩, ?_, ?_, rfl⟩
    · simp [ensure_response_created, hid, replay_cons, track]
    · simp [ensure_response_created, hid, Matches, haudio, hcount, String.join]
  | some r =>
    have hid : s.active_response_id = some r.id := h.1
    refine ⟨some r, ?_, ?_, rfl⟩
    · simp [ensure_response_created, hid]
    · simpa [ensure_response_created, hid] using h

theorem ensure_audio_item_added_sends (h : Matches s k) :
    Sends (ensure_audio_item_added id_factory) s k fun k' => k'.isSome := by
  obtain ⟨k₁, hreplay, hmatch, hsome⟩ := ensure_response_created_sends id_factory h
  obtain ⟨r, rfl⟩ := Option.isSome_iff_exists.1 hsome
  obtain ⟨hid, hcount, htext, haudio⟩ := hmatch
  by_cases hann : (exec (ensure_response_created id_factory) s).2.audio_item_announced
  · refine ⟨some r, ?_, ?_, rfl⟩
    · simp [ensure_audio_item_added, hann, hreplay]
    · simp [ensure_audio_item_added, hann, Matches, hid, hcount, htext, haudio]
  · simp only [hann, Bool.false_eq_true, if_false] at haudio
    refine ⟨some { r with next := r.next + 1, audio := .announced r.next }, ?_, ?_, rfl⟩
    · simp [ensure_audio_item_added, hann, replay_append, hreplay, replay_cons, track, hid, hcount,
        haudio]
    · simp [ensure_audio_item_added, hann, Matches, hid, hcount, htext]

/-- Whatever was open is closed: the audio end events come exactly when there is an audio item. -/
theorem finish_response_sends (h : Matches s k) :
    Sends (finish_response id_factory) s k fun k' => k' = none := by
  obtain ⟨k₁, hreplay, hmatch, hsome⟩ := ensure_response_created_sends id_factory h
  obtain ⟨r, rfl⟩ := Option.isSome_iff_exists.1 hsome
  obtain ⟨hid, hcount, htext, haudio⟩ := hmatch
  refine ⟨none, ?_, by simp [finish_response, Matches], rfl⟩
  by_cases hann : (exec (ensure_response_created id_factory) s).2.audio_item_announced
  · simp only [hann, if_true] at haudio
    simp [finish_response, audio_done_pair, hann, replay_append, hreplay, replay_cons, track, hid,
      haudio, htext]
  · simp only [hann, Bool.false_eq_true, if_false] at haudio
    simp [finish_response, audio_done_pair, hann, replay_append, hreplay, replay_cons, track, hid,
      haudio]

theorem input_item_matches (h : Matches s k) : Matches (exec (input_item id_factory) s).2 k := by
  unfold input_item
  simp only [exec_bind, exec_get]
  split
  · exact h
  · cases k <;> exact h

theorem tts_started_sends (sentence : Option Json) (h : Matches s k) :
    Sends (translate id_factory (.tts_started sentence)) s k fun k' => k'.isSome := by
  obtain ⟨k₁, hreplay, hmatch, hsome⟩ := ensure_audio_item_added_sends id_factory h
  obtain ⟨r, rfl⟩ := Option.isSome_iff_exists.1 hsome
  have hid := hmatch.1
  refine ⟨some r, ?_, ?_, rfl⟩
  · simp [translate, replay_append, hreplay, replay_cons, track, hid]
  · simp only [translate, exec_bind, exec_get, exec_event_id, exec_pure]
    exact hmatch

theorem tts_sentence_done_sends (sentence : Option Json) {r : Open} (h : Matches s (some r)) :
    Sends (translate id_factory (.tts_sentence_done sentence)) s (some r) fun k' => k'.isSome := by
  have hopen := h.unfinished
  obtain ⟨hid, hcount, htext, haudio⟩ := h
  refine ⟨some { r with transcript := r.transcript ++ str_or sentence "" }, ?_, ?_, rfl⟩
  · simp [translate, replay_cons, track, hid, hopen]
  · have hjoin : String.join (s.active_transcript ++ [str_or sentence ""]) =
        r.transcript ++ str_or sentence "" := by
      rw [← htext]
      simp [String.join, List.foldl_append]
    simp only [translate, exec_bind, exec_modify, exec_get, exec_event_id, exec_pure]
    exact ⟨hid, hcount, hjoin, haudio⟩

theorem tts_done_sends (session_complete : Option Json) (h : Matches s k) :
    Sends (translate id_factory (.tts_done session_complete)) s k fun k' => k' = none := by
  by_cases hskip : s.active_response_id = none ∧ session_complete = some (.bool true)
  · cases k with
    | none =>
      refine ⟨none, ?_, ?_, rfl⟩
      · simp [translate, hskip]
      · simpa [translate, hskip] using h
    | some r =>
      have hid : s.active_response_id = some r.id := h.1
      simp [hskip.1] at hid
  · obtain ⟨k', hreplay, hmatch, hnone⟩ := finish_response_sends id_factory h
    refine ⟨k', ?_, ?_, hnone⟩
    · simpa [translate, hskip] using hreplay
    · simpa [translate, hskip] using hmatch

theorem tool_call_sends (call_id id name timeout_s : Option Json) (arguments : Arguments)
    (h : Matches s k) :
    Sends (translate id_factory (.tool_call call_id id name timeout_s arguments)) s k
      fun k' => k'.isSome := by
  obtain ⟨k₁, hreplay, hmatch, hsome⟩ := ensure_response_created_sends id_factory h
  obtain ⟨r, rfl⟩ := Option.isSome_iff_exists.1 hsome
  have hopen := hmatch.unfinished
  obtain ⟨hid, hcount, htext, haudio⟩ := hmatch
  refine ⟨some { r with next := r.next + 1 }, ?_, ?_, rfl⟩
  · simp [translate, replay_append, hreplay, replay_cons, track, hid, hcount, hopen]
  · simp only [translate, exec_bind, exec_modify, exec_get, exec_event_id, exec_pure, exec_new_id]
    exact ⟨hid, by simp [hcount], htext, haudio⟩

/-- An event that is not about a response leaves the response as it is. -/
theorem aside_sends {payload : Payload} (haside : payload.aside = true) (h : Matches s k) :
    Sends (translate id_factory payload) s k fun k' => k' = k := by
  have hitem := input_item_matches id_factory h
  cases payload with
  | vad_event event =>
    refine ⟨k, ?_, ?_, rfl⟩
    all_goals
      simp only [translate, exec_ite, exec_bind, exec_modify, exec_get, exec_event_id, exec_pure,
        exec_new_id]
      split <;> cases k <;> first | rfl | exact h
  | asr_endpoint =>
    refine ⟨k, ?_, ?_, rfl⟩
    · cases k <;> simp [translate, replay_cons, track]
    · simp only [translate, exec_bind, exec_event_id, exec_pure]
      cases k <;> exact hitem
  | asr_partial text is_stable =>
    refine ⟨k, ?_, ?_, rfl⟩
    · cases k <;> simp [translate, replay_cons, track]
    · simp only [translate, exec_bind, exec_event_id, exec_pure]
      cases k <;> exact hitem
  | asr_final text language =>
    refine ⟨k, ?_, ?_, rfl⟩
    · cases k <;> simp [translate, replay_cons, track]
    · simp only [translate, exec_bind, exec_event_id, exec_pure, exec_modify]
      cases k <;> exact hitem
  | error raw code param =>
    refine ⟨k, ?_, ?_, rfl⟩
    · cases k <;> simp [translate, replay_cons, track]
    · simp only [translate, exec_bind, exec_event_id, exec_pure]
      cases k <;> exact h
  | tts_started | tts_sentence_done | tts_done | tool_call => simp [Payload.aside] at haside

end

/-! Sequences of calls -/

/-- Whether a response is open after a call, seen from the engine's side. -/
def speaking : Bool → Call → Bool
  | _, .translate (.tts_started _) => true
  | _, .translate (.tool_call ..) => true
  | _, .translate (.tts_done _) => false
  | b, _ => b

/-- Every `tts_sentence_done` comes while a response is open: after a `tts_started` or a `tool_call`
    with no `tts_done` in between. -/
def InTurn (b : Bool) (cs : List Call) : Prop :=
  ∀ before sentence after, cs = before ++ .translate (.tts_sentence_done sentence) :: after →
    before.foldl speaking b = true

theorem in_turn_cons {b : Bool} {c : Call} {cs : List Call} :
    InTurn b (c :: cs) ↔
      (∀ sentence, c = .translate (.tts_sentence_done sentence) → b = true) ∧
        InTurn (speaking b c) cs := by
  constructor
  · intro h
    refine ⟨?_, ?_⟩
    · rintro sentence rfl
      exact h [] sentence cs rfl
    · rintro before sentence after rfl
      exact h (c :: before) sentence after rfl
  · rintro ⟨hc, hrest⟩ before sentence after heq
    cases before with
    | nil =>
      obtain ⟨rfl, _⟩ := List.cons.inj heq
      exact hc sentence rfl
    | cons d before =>
      obtain ⟨rfl, rfl⟩ := List.cons.inj heq
      exact hrest before sentence after rfl

section
variable (id_factory : String → ℕ → String) {s : Adapter} {k : Option Open}

theorem aside_call_sends {payload : Payload} (haside : payload.aside = true) (h : Matches s k) :
    Sends (call id_factory (.translate payload)) s k fun k' =>
      k'.isSome = speaking k.isSome (.translate payload) := by
  have hspeak : speaking k.isSome (.translate payload) = k.isSome := by
    cases payload with
    | tts_started | tts_sentence_done | tts_done | tool_call => simp [Payload.aside] at haside
    | vad_event | asr_endpoint | asr_partial | asr_final | error => rfl
  obtain ⟨k', hreplay, hmatch, rfl⟩ := aside_sends id_factory haside h
  exact ⟨k', hreplay, hmatch, hspeak.symm⟩

/-- A call in its turn sends events the checker takes, and opens or closes as the engine sees it. -/
theorem call_sends (c : Call) (h : Matches s k)
    (hturn : ∀ sentence, c = .translate (.tts_sentence_done sentence) → k.isSome = true) :
    Sends (call id_factory c) s k fun k' => k'.isSome = speaking k.isSome c := by
  cases c with
  | mark_cancelled reason =>
    refine ⟨k, rfl, ?_, rfl⟩
    simp only [call, mark_cancelled, exec_bind, exec_modify, exec_pure]
    split <;> cases k <;> exact h
  | mark_direct_speak =>
    refine ⟨k, rfl, ?_, rfl⟩
    simp only [call, mark_direct_speak, exec_bind, exec_modify, exec_pure]
    cases k <;> exact h
  | translate payload =>
    cases payload with
    | tts_started sentence => exact tts_started_sends id_factory sentence h
    | tts_sentence_done sentence =>
      have hsome := hturn sentence rfl
      obtain ⟨r, rfl⟩ := Option.isSome_iff_exists.1 hsome
      exact tts_sentence_done_sends id_factory sentence h
    | tts_done complete =>
      obtain ⟨k', hreplay, hmatch, rfl⟩ := tts_done_sends id_factory complete h
      exact ⟨none, hreplay, hmatch, rfl⟩
    | tool_call call_id id name timeout_s arguments =>
      exact tool_call_sends id_factory call_id id name timeout_s arguments h
    | vad_event _ | asr_endpoint | asr_partial _ _ | asr_final _ _ | error _ _ _ =>
      exact aside_call_sends id_factory rfl h

/-- Outside a response, `tts_sentence_done` sends a delta that belongs to none. -/
theorem tts_sentence_done_stray (sentence : Option Json) :
    replay track none (exec (translate id_factory (.tts_sentence_done sentence)) s).1 = none := by
  simp [translate, replay_cons, track]

/-- From any point of a session: the rest of the output is well formed exactly when the calls are in
    turn. -/
theorem outputs_tracked (cs : List Call) (h : Matches s k) :
    (replay track k (exec (outputs id_factory cs) s).1).isSome ↔ InTurn k.isSome cs := by
  induction cs generalizing s k with
  | nil => simp [outputs, InTurn]
  | cons c cs ih =>
    have hout : (exec (outputs id_factory (c :: cs)) s).1 =
        (exec (call id_factory c) s).1 ++
          (exec (outputs id_factory cs) (exec (call id_factory c) s).2).1 := by
      simp [outputs]
    rw [hout, replay_append, in_turn_cons]
    by_cases hturn : ∀ sentence, c = .translate (.tts_sentence_done sentence) → k.isSome = true
    · obtain ⟨k', hreplay, hmatch, hopen⟩ := call_sends id_factory c h hturn
      rw [hreplay, Option.bind_some, ih hmatch, hopen]
      exact ⟨fun hrest => ⟨hturn, hrest⟩, fun hrest => hrest.2⟩
    · push Not at hturn
      obtain ⟨sentence, rfl, hclosed⟩ := hturn
      obtain rfl : k = none := by simpa using hclosed
      have hstray := tts_sentence_done_stray (s := s) id_factory sentence
      simp only [call, hstray, Option.bind_none, Option.isSome_none, Bool.false_eq_true, false_iff]
      rintro ⟨hc, _⟩
      simpa using hc sentence rfl

theorem matches_init : Matches .init none := ⟨rfl, rfl, rfl⟩

/-- The adapter's whole output is a well-formed sequence of responses exactly when every
    `tts_sentence_done` comes while a response is open. -/
theorem well_formed_iff_in_turn (cs : List Call) :
    WellFormed (exec (outputs id_factory cs) .init).1 ↔ InTurn false cs :=
  outputs_tracked id_factory cs matches_init

end

/-- A sentence that is reported done after its response was closed: its delta names no response. -/
def late_sentence : List Call :=
  [.translate (.tts_started (some (.str "hello"))), .translate (.tts_done none),
    .translate (.tts_sentence_done (some (.str "hello")))]

theorem late_sentence_is_stray :
    ¬ ∀ cs : List Call,
      WellFormed (exec (outputs (fun kind n => kind ++ "_" ++ toString n) cs) .init).1 := by
  intro h
  exact absurd (h late_sentence) (by decide +kernel)

end RealtimeV2EventAdapter

end LocalVoice.V2V
