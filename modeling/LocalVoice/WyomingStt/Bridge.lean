import LocalVoice.Lib.PyText
import Mathlib.Data.Int.Notation
import Mathlib.Data.List.Forall2

/-! The audio path of the Wyoming adapter: `SlvSttHandler.handle_event` of `wyoming_slv/stt.py`, which sends
    the audio of each utterance to an upstream socket of its own, and `SlvClient.tts_stream` of
    `upstream.py`. Both keep an odd byte for the next piece; the handler also keeps it for the next
    utterance, when that begins before an `audio-stop`. -/

namespace LocalVoice.WyomingStt
open LocalVoice.Lib

abbrev Bytes := List UInt8

/-! ### Whole samples -/

/-- The whole samples at the front. -/
def whole (s : Bytes) : Bytes := s.take (s.length - s.length % 2)

/-- The odd byte behind them, if there is one. -/
def straggler (s : Bytes) : Bytes := s.drop (s.length - s.length % 2)

theorem whole_straggler (s : Bytes) : whole s ++ straggler s = s := List.take_append_drop ..

theorem whole_length (s : Bytes) : (whole s).length % 2 = 0 := by
  rw [whole, List.length_take]
  omega

theorem straggler_length (s : Bytes) : (straggler s).length = s.length % 2 := by
  rw [straggler, List.length_drop]
  omega

/-- The odd byte goes in front of what comes next. -/
theorem carry_whole (s t : Bytes) :
    whole (s ++ t) = whole s ++ whole (straggler s ++ t) ∧
      straggler (s ++ t) = straggler (straggler s ++ t) := by
  have hsplit : s ++ t = whole s ++ (straggler s ++ t) := by rw [← List.append_assoc, whole_straggler]
  have heven := whole_length s
  have hcut : (s ++ t).length - (s ++ t).length % 2 =
      (whole s).length + ((straggler s ++ t).length - (straggler s ++ t).length % 2) := by
    rw [hsplit, List.length_append]
    omega
  constructor
  · rw [whole, hcut, hsplit, List.take_length_add_append]
    rfl
  · rw [straggler, hcut, hsplit, List.drop_length_add_append]
    rfl

theorem straggler_odd {s : Bytes} (h : s.length % 2 = 1) : ∃ b, straggler s = [b] ∧ s.getLast? = some b := by
  obtain ⟨b, hb⟩ := List.length_eq_one_iff.1 ((straggler_length s).trans h)
  refine ⟨b, hb, ?_⟩
  rw [← whole_straggler s, hb]
  exact List.getLast?_concat

theorem straggler_even {s : Bytes} (h : s.length % 2 = 0) : straggler s = [] :=
  List.eq_nil_of_length_eq_zero ((straggler_length s).trans h)

/-- The bytes are those of the audio, less an odd one at its end. -/
def Whole (bytes audio : Bytes) : Prop := bytes = audio ∨ ∃ b, bytes ++ [b] = audio

theorem whole_of (s : Bytes) : Whole (whole s) s := by
  have hsplit := whole_straggler s
  rcases Nat.mod_two_eq_zero_or_one s.length with heven | hodd
  · rw [straggler_even heven, List.append_nil] at hsplit
    exact .inl hsplit
  · obtain ⟨b, hb, -⟩ := straggler_odd hodd
    exact .inr ⟨b, hb ▸ hsplit⟩

theorem Whole.length {bytes audio : Bytes} (h : Whole bytes audio) : bytes.length ≤ audio.length := by
  rcases h with rfl | ⟨b, rfl⟩
  · exact Nat.le_refl _
  · rw [List.length_append]
    exact Nat.le_add_right ..

/-! ### The transcription handler -/

/-- A message of the upstream, as far as it is read: `error` is truthy or not, no text is the empty one. -/
structure Payload where
  error : Bool
  is_final : Bool
  text : String

/-- What the socket gives: a text message, another one, or an exception. -/
inductive Message where
  | text (p : Payload)
  | other
  | raised

/-- The loop of `_finish_upstream` over what the socket gives. -/
def final_text : List Message → String
  | [] => ""
  | .raised :: _ => ""
  | .other :: rest => final_text rest
  | .text p :: rest =>
    if p.error then "" else if p.is_final then PyText.strip p.text else final_text rest

/-- An event of the client, and what the upstream gives at the end of an utterance. -/
inductive Event where
  | describe
  | transcribe (language : Option String)
  | audio_start (rate : ℤ)
  | audio_chunk (rate : ℤ) (audio : Bytes)
  | audio_stop (reply : List Message)
  | other

/-- What the handler writes to the client. -/
inductive Written where
  | info
  | transcript (text : String)

/-- An upstream socket, with the binary frames that were sent. -/
structure Upstream where
  url : String
  frames : List Bytes

/-- The handler, with the sockets it has closed, and what it has written. -/
structure Handler where
  language : String
  sample_rate : ℤ
  ws : Option Upstream
  closed : List Upstream
  sent_bytes : ℕ
  align_tail : Bytes
  written : List Written

/-- `asr_stream_url`. -/
def asr_stream_url (ws_base language : String) (sample_rate : ℤ) : String :=
  ws_base ++ "/asr/stream?language=" ++ language ++ "&sample_rate=" ++ toString sample_rate ++ "&vad=none"

namespace Handler
variable (ws_base : String) (h : Handler)

def init : Handler := ⟨"auto", 16000, none, [], 0, [], []⟩

/-- `_close_upstream`. -/
def close_upstream : Handler := { h with closed := h.closed ++ h.ws.toList, ws := none }

/-- `_open_upstream`. -/
def open_upstream : Handler :=
  { h.close_upstream with ws := some ⟨asr_stream_url ws_base h.language h.sample_rate, []⟩ }

/-- `self._ws.send_bytes`. -/
def send_bytes (data : Bytes) : Handler :=
  { h with ws := h.ws.map fun u => { u with frames := u.frames ++ [data] } }

/-- `_finish_upstream`: the text, and the handler. -/
def finish_upstream (reply : List Message) : String × Handler :=
  if h.ws.isSome then (final_text reply, (h.send_bytes []).close_upstream) else ("", h)

/-- `handle_event`. -/
def handle_event : Event → Handler
  | .describe => { h with written := h.written ++ [.info] }
  | .transcribe language =>
    match language with
    | none => h
    | some language => if language = "" then h else { h with language := language }
  | .audio_start rate => { h with sample_rate := rate }.open_upstream ws_base
  | .audio_chunk rate audio =>
    let h := if h.ws.isNone then { h with sample_rate := rate }.open_upstream ws_base else h
    let buf := h.align_tail ++ audio
    let usable := buf.length - buf.length % 2
    let h := { h with align_tail := buf.drop usable }
    if usable = 0 then h else { h.send_bytes (buf.take usable) with sent_bytes := h.sent_bytes + usable }
  | .audio_stop reply =>
    let (text, h) := h.finish_upstream reply
    { h with written := h.written ++ [.transcript text], sent_bytes := 0, align_tail := [] }
  | .other => h

/-- The sockets, in the order of their opening. -/
def upstreams : List Upstream := h.closed ++ h.ws.toList

end Handler

/-- A connection. -/
def run (ws_base : String) (events : List Event) : Handler :=
  events.foldl (Handler.handle_event ws_base) .init

/-! ### Utterances -/

/-- An utterance: the audio since the last `audio-stop` before it, and its own. -/
structure Utterance where
  before : Bytes
  audio : Bytes

/-- What the client has said: the utterances that ended, the one that goes on, and all the audio since the
    last `audio-stop`. -/
structure Heard where
  ended : List Utterance
  current : Option Utterance
  since : Bytes

namespace Heard

def init : Heard := ⟨[], none, []⟩

/-- An utterance begins with an `audio-start`, or with audio when none goes on; it ends with an `audio-stop`
    or where the next one begins. -/
def hear (s : Heard) : Event → Heard
  | .audio_start _ => ⟨s.ended ++ s.current.toList, some ⟨s.since, []⟩, s.since⟩
  | .audio_chunk _ audio =>
    let u := s.current.getD ⟨s.since, []⟩
    ⟨s.ended, some { u with audio := u.audio ++ audio }, s.since ++ audio⟩
  | .audio_stop _ => ⟨s.ended ++ s.current.toList, none, []⟩
  | _ => s

end Heard

def utterances (events : List Event) : List Utterance :=
  let s := events.foldl Heard.hear .init
  s.ended ++ s.current.toList

/-- The frames are whole samples, and make up the audio, less an odd byte at its end. -/
structure Aligned (u : Upstream) (utterance : Utterance) : Prop where
  even : ∀ frame ∈ u.frames, frame.length % 2 = 0
  audio : Whole u.frames.flatten utterance.audio

/-- No byte is kept from before the utterance; or the audio is as if that byte had come at its end. -/
def Fresh (utterance : Utterance) : Prop :=
  utterance.before.length % 2 = 0 ∨
    utterance.audio.length % 2 = 0 ∧ ∀ b ∈ utterance.audio, utterance.before.getLast? = some b

/-! ### What is sent -/

/-- The frames are whole samples, and make up the audio behind the byte kept from before. -/
structure Forwarded (u : Upstream) (utterance : Utterance) : Prop where
  even : ∀ frame ∈ u.frames, frame.length % 2 = 0
  audio : u.frames.flatten = whole (straggler utterance.before ++ utterance.audio)

theorem take_same {b : UInt8} {s : Bytes} : (b :: s).take s.length = s ↔ ∀ c ∈ s, c = b := by
  induction s generalizing b with
  | nil => simp
  | cons c s ih =>
    rw [List.length_cons, List.take_succ_cons, List.cons.injEq, ih, List.forall_mem_cons]
    constructor
    · rintro ⟨rfl, h⟩
      exact ⟨rfl, h⟩
    · rintro ⟨rfl, h⟩
      exact ⟨rfl, h⟩

/-- What is sent is the audio exactly when the utterance is fresh. -/
theorem Forwarded.aligned_iff {u : Upstream} {utterance : Utterance} (h : Forwarded u utterance) :
    Aligned u utterance ↔ Fresh utterance := by
  have hflat := h.audio
  rcases Nat.mod_two_eq_zero_or_one utterance.before.length with hbefore | hbefore
  · refine ⟨fun _ => .inl hbefore, fun _ => ⟨h.even, ?_⟩⟩
    rw [hflat, straggler_even hbefore, List.nil_append]
    exact whole_of utterance.audio
  · obtain ⟨b, hb, hlast⟩ := straggler_odd hbefore
    rw [hb, List.singleton_append] at hflat
    rcases Nat.mod_two_eq_zero_or_one utterance.audio.length with haudio | haudio
    · have hwhole : u.frames.flatten = (b :: utterance.audio).take utterance.audio.length := by
        rw [hflat, whole, List.length_cons]
        congr 1
        omega
      have hlen : u.frames.flatten.length = utterance.audio.length := by
        rw [hwhole, List.length_take, List.length_cons]
        omega
      constructor
      · intro haligned
        refine .inr ⟨haudio, fun c hc => ?_⟩
        rcases haligned.audio with heq | ⟨d, hd⟩
        · rw [hlast, take_same.1 (hwhole.symm.trans heq) c hc]
        · have hshort := congrArg List.length hd
          rw [List.length_append, List.length_singleton] at hshort
          omega
      · rintro (heven | ⟨-, hsame⟩)
        · omega
        · refine ⟨h.even, .inl (hwhole.trans (take_same.2 fun c hc => ?_))⟩
          exact (Option.some.inj (hlast.symm.trans (hsame c hc))).symm
    · -- one byte more is sent than the utterance has
      have hlen : u.frames.flatten.length = utterance.audio.length + 1 := by
        rw [hflat, whole, List.length_take, List.length_cons]
        omega
      constructor
      · intro haligned
        have hle := haligned.audio.length
        omega
      · rintro (heven | ⟨heven, -⟩) <;> omega

/-! ### A connection -/

/-- The handler is where the client is: its sockets have what they should, and its tail is the odd byte
    since the last `audio-stop`. -/
structure Follows (h : Handler) (s : Heard) : Prop where
  closed : List.Forall₂ Forwarded h.closed s.ended
  ws : Option.Rel Forwarded h.ws s.current
  tail : h.align_tail = straggler s.since
  since : ∀ u ∈ s.current, s.since = u.before ++ u.audio

section
variable {h : Handler} {s : Heard} {ws_base : String}

theorem forall₂_snoc {l : List Upstream} {r : List Utterance} {o : Option Upstream} {o' : Option Utterance}
    (hl : List.Forall₂ Forwarded l r) (ho : Option.Rel Forwarded o o') :
    List.Forall₂ Forwarded (l ++ o.toList) (r ++ o'.toList) := by
  cases ho with
  | none => simpa using hl
  | some hsame => exact List.rel_append hl (.cons hsame .nil)

/-- A socket that was just opened. -/
theorem forwarded_nil (url : String) (before : Bytes) : Forwarded ⟨url, []⟩ ⟨before, []⟩ := by
  refine ⟨fun frame hframe => absurd hframe List.not_mem_nil, ?_⟩
  have hlen := straggler_length before
  have hwhole : whole (straggler before) = [] := by
    rw [whole, Nat.sub_eq_zero_of_le (by omega)]
    rfl
  exact (show whole (straggler before ++ []) = [] by rw [List.append_nil, hwhole]).symm

theorem Follows.open_upstream (hf : Follows h s) :
    Follows (h.open_upstream ws_base) ⟨s.ended ++ s.current.toList, some ⟨s.since, []⟩, s.since⟩ := by
  refine ⟨forall₂_snoc hf.closed hf.ws, .some (forwarded_nil _ _), hf.tail, fun u hu => ?_⟩
  obtain rfl := Option.some.inj hu
  exact (List.append_nil _).symm

/-- What is sent of a chunk that comes behind the audio so far. -/
theorem Forwarded.chunk {u : Upstream} {utterance : Utterance} (hu : Forwarded u utterance) (audio : Bytes) :
    Forwarded
      { u with
        frames := u.frames ++ [whole (straggler (utterance.before ++ utterance.audio) ++ audio)] }
      { utterance with audio := utterance.audio ++ audio } := by
  refine ⟨fun frame hframe => ?_, ?_⟩
  · rcases List.mem_append.1 hframe with hframe | hframe
    · exact hu.even frame hframe
    · rw [List.mem_singleton.1 hframe]
      exact whole_length _
  · have hcarry := (carry_whole (straggler utterance.before ++ utterance.audio) audio).1
    rw [← (carry_whole utterance.before utterance.audio).2, List.append_assoc] at hcarry
    rw [List.flatten_append, List.flatten_singleton, hu.audio]
    exact hcarry.symm

/-- The empty frame, at the end. -/
theorem Forwarded.stop {u : Upstream} {utterance : Utterance} (hu : Forwarded u utterance) :
    Forwarded { u with frames := u.frames ++ [[]] } utterance := by
  refine ⟨fun frame hframe => ?_, ?_⟩
  · rcases List.mem_append.1 hframe with hframe | hframe
    · exact hu.even frame hframe
    · rw [List.mem_singleton.1 hframe]
      rfl
  · rw [List.flatten_append, hu.audio]
    exact List.append_nil _

/-- No frame is sent where there is not even one sample. -/
theorem Forwarded.quiet {u : Upstream} {utterance : Utterance} (hu : Forwarded u utterance) {audio : Bytes}
    (hnone : whole (straggler (utterance.before ++ utterance.audio) ++ audio) = []) :
    Forwarded u { utterance with audio := utterance.audio ++ audio } := by
  refine ⟨hu.even, ?_⟩
  have hchunk := (hu.chunk audio).audio
  rw [hnone] at hchunk
  simpa using hchunk

/-- A socket is open for an utterance, or there is neither. -/
theorem Follows.sockets (hf : Follows h s) : (h.ws = none ∧ s.current = none) ∨
    ∃ u utterance, h.ws = some u ∧ s.current = some utterance ∧ Forwarded u utterance := by
  have hrel := hf.ws
  revert hrel
  generalize h.ws = ws
  generalize s.current = current
  rintro (hu | _)
  · exact .inr ⟨_, _, rfl, rfl, hu⟩
  · exact .inl ⟨rfl, rfl⟩

/-- A chunk for a socket that is open. -/
theorem Follows.chunk (hf : Follows h s) {u : Upstream} {utterance : Utterance} (hws : h.ws = some u)
    (hcurrent : s.current = some utterance) (hu : Forwarded u utterance) (rate : ℤ) (audio : Bytes) :
    Follows (h.handle_event ws_base (.audio_chunk rate audio)) (s.hear (.audio_chunk rate audio)) := by
  have hsince := hf.since utterance hcurrent
  have htail : straggler (h.align_tail ++ audio) = straggler (s.since ++ audio) := by
    rw [hf.tail, ← (carry_whole s.since audio).2]
  have hcur : ∀ v ∈ (s.hear (.audio_chunk rate audio)).current,
      (s.hear (.audio_chunk rate audio)).since = v.before ++ v.audio := by
    intro v hv
    simp only [Heard.hear, hcurrent, Option.getD_some] at hv ⊢
    obtain rfl := Option.some.inj hv
    rw [hsince, List.append_assoc]
  have hbuf : h.align_tail ++ audio = straggler (utterance.before ++ utterance.audio) ++ audio := by
    rw [hf.tail, hsince]
  simp only [Handler.handle_event, hws, Option.isNone_some, Bool.false_eq_true, if_false]
  split
  · next hzero =>
    refine ⟨hf.closed, ?_, htail, hcur⟩
    simp only [Heard.hear, hcurrent, Option.getD_some]
    refine .some (hu.quiet ?_)
    rw [← hbuf, whole, hzero]
    rfl
  · refine ⟨hf.closed, ?_, htail, hcur⟩
    simp only [Handler.send_bytes, Option.map_some, Heard.hear, hcurrent, Option.getD_some]
    have hchunk := hu.chunk audio
    rw [← hbuf] at hchunk
    exact .some hchunk

/-- The first chunk opens the socket that an `audio-start` would have opened. -/
theorem Follows.first_chunk (hf : Follows h s) (hws : h.ws = none) (hcurrent : s.current = none) (rate : ℤ)
    (audio : Bytes) :
    Follows (h.handle_event ws_base (.audio_chunk rate audio)) (s.hear (.audio_chunk rate audio)) := by
  have hrate : Follows { h with sample_rate := rate } s := ⟨hf.closed, hf.ws, hf.tail, hf.since⟩
  have hopen := @Follows.open_upstream _ s ws_base hrate
  have hopened := @Follows.chunk _ _ ws_base hopen _ _ rfl rfl (forwarded_nil _ _) rate audio
  simp only [Handler.handle_event, hws, Option.isNone_none, if_true, Heard.hear, hcurrent,
    Option.toList_none, List.append_nil, Option.getD_none] at hopened ⊢
  exact hopened

/-- The end of an utterance: its socket is given the empty frame and closed. -/
theorem Follows.stop (hf : Follows h s) (reply : List Message) :
    Follows (h.handle_event ws_base (.audio_stop reply)) (s.hear (.audio_stop reply)) := by
  obtain ⟨hws, hcurrent⟩ | ⟨u, utterance, hws, hcurrent, hu⟩ := hf.sockets
  · simp only [Handler.handle_event, Handler.finish_upstream, hws, Option.isSome_none, Bool.false_eq_true,
      if_false, Heard.hear, hcurrent, Option.toList_none, List.append_nil]
    exact ⟨hf.closed, .none, rfl, fun u hu => by cases hu⟩
  · have hsent : (h.send_bytes []).ws = some { u with frames := u.frames ++ [[]] } := by
      rw [Handler.send_bytes, hws]
      rfl
    simp only [Handler.handle_event, Handler.finish_upstream, hws, Option.isSome_some, if_true, Heard.hear,
      hcurrent]
    refine ⟨?_, .none, rfl, fun u hu => by cases hu⟩
    rw [Handler.close_upstream, hsent]
    exact List.rel_append hf.closed (.cons hu.stop .nil)

/-- Whatever comes, the handler follows. -/
theorem Follows.step (hf : Follows h s) (ev : Event) :
    Follows (h.handle_event ws_base ev) (s.hear ev) := by
  cases ev with
  | describe => exact ⟨hf.closed, hf.ws, hf.tail, hf.since⟩
  | transcribe language =>
    cases language with
    | none => exact hf
    | some language =>
      rw [Handler.handle_event]
      split
      · exact hf
      · exact ⟨hf.closed, hf.ws, hf.tail, hf.since⟩
  | audio_start rate =>
    have hrate : Follows { h with sample_rate := rate } s := ⟨hf.closed, hf.ws, hf.tail, hf.since⟩
    exact hrate.open_upstream
  | audio_chunk rate audio =>
    obtain ⟨hws, hcurrent⟩ | ⟨u, utterance, hws, hcurrent, hu⟩ := hf.sockets
    · exact hf.first_chunk hws hcurrent rate audio
    · exact hf.chunk hws hcurrent hu rate audio
  | audio_stop reply => exact hf.stop reply
  | other => exact hf

/-- What every socket of a connection got. -/
theorem run_forwarded (ws_base : String) (events : List Event) :
    List.Forall₂ Forwarded (run ws_base events).upstreams (utterances events) := by
  have hstart : Follows .init .init := ⟨.nil, .none, rfl, fun u hu => by cases hu⟩
  have hall : ∀ (evs : List Event) (h : Handler) (s : Heard), Follows h s →
      Follows (evs.foldl (Handler.handle_event ws_base) h) (evs.foldl Heard.hear s) := by
    intro evs
    induction evs with
    | nil => exact fun h s hf => hf
    | cons ev evs ih => exact fun h s hf => ih _ _ (hf.step ev)
  have hend := hall events _ _ hstart
  exact forall₂_snoc hend.closed hend.ws

end

/-! ### Transcripts -/

def Written.is_transcript : Written → Bool
  | .transcript _ => true
  | .info => false

def Event.is_stop : Event → Bool
  | .audio_stop _ => true
  | _ => false

/-- An `audio-stop` is answered with one transcript, and no other event with any. -/
theorem event_transcripts (ws_base : String) (h : Handler) (ev : Event) :
    (h.handle_event ws_base ev).written.countP Written.is_transcript =
      h.written.countP Written.is_transcript + if ev.is_stop then 1 else 0 := by
  cases ev with
  | describe => simp [Handler.handle_event, Event.is_stop, Written.is_transcript]
  | transcribe language =>
    cases language with
    | none => rfl
    | some language =>
      rw [Handler.handle_event]
      split <;> rfl
  | audio_start rate => rfl
  | audio_chunk rate audio =>
    rw [Handler.handle_event]
    dsimp only
    split <;> split <;> rfl
  | audio_stop reply =>
    have hwritten : (h.finish_upstream reply).2.written = h.written := by
      unfold Handler.finish_upstream
      split <;> rfl
    simp [Handler.handle_event, hwritten, Event.is_stop, Written.is_transcript]
  | other => rfl

theorem run_transcripts (ws_base : String) (events : List Event) :
    (run ws_base events).written.countP Written.is_transcript = events.countP Event.is_stop := by
  have hall : ∀ (evs : List Event) (h : Handler),
      (evs.foldl (Handler.handle_event ws_base) h).written.countP Written.is_transcript =
        h.written.countP Written.is_transcript + evs.countP Event.is_stop := by
    intro evs
    induction evs with
    | nil => exact fun h => rfl
    | cons ev evs ih =>
      intro h
      rw [List.foldl_cons, ih, event_transcripts, List.countP_cons, Nat.add_right_comm, Nat.add_assoc]
  exact (hall events .init).trans (Nat.zero_add _)

/-! ### The synthesis stream -/

/-- The answer to `POST /tts/stream`, with its body as the network cuts it. -/
structure Response where
  status : ℕ
  content_type : String
  chunks : List Bytes

/-- `struct.unpack("<I", header)`, on the first four bytes. -/
def unpack_u32 (header : Bytes) : ℕ :=
  (header.take 4).foldr (fun b n => b.toNat + 256 * n) 0

/-- The variables of `tts_stream`. -/
structure Reader where
  header : Bytes
  sample_rate : ℕ
  got_header : Bool
  pending : Bytes

namespace Reader

def init : Reader := ⟨[], 16000, false, []⟩

/-- The samples of a chunk, behind what is pending. -/
def push (r : Reader) (chunk : Bytes) : Reader × List (ℕ × Bytes) :=
  let pending := r.pending ++ chunk
  let usable := pending.length - pending.length % 2
  if usable = 0 then ({ r with pending := pending }, [])
  else ({ r with pending := pending.drop usable }, [(r.sample_rate, pending.take usable)])

/-- A round of the loop over the body. -/
def read (r : Reader) (chunk : Bytes) : Reader × List (ℕ × Bytes) :=
  if r.got_header then r.push chunk
  else
    let header := r.header ++ chunk
    if header.length < 4 then ({ r with header := header }, [])
    else
      let r := { r with header := header, sample_rate := unpack_u32 header, got_header := true }
      let chunk := header.drop 4
      if chunk = [] then (r, []) else r.push chunk

/-- The loop, with what it yields. -/
def read_all (r : Reader) : List Bytes → Reader × List (ℕ × Bytes)
  | [] => (r, [])
  | chunk :: chunks =>
    (((r.read chunk).1.read_all chunks).1, (r.read chunk).2 ++ ((r.read chunk).1.read_all chunks).2)

end Reader

/-- `tts_stream`; `none` when it raises. -/
def tts_stream (resp : Response) : Option (List (ℕ × Bytes)) :=
  if 400 ≤ resp.status ∨ PyText.startswith resp.content_type "application/json" = true then none
  else some (Reader.init.read_all resp.chunks).2

/-- What has been yielded of a body: whole samples at its rate, up to what is pending. -/
structure Read (body : Bytes) (out : List (ℕ × Bytes)) (r : Reader) : Prop where
  even : ∀ piece ∈ out, piece.2.length % 2 = 0 ∧ piece.1 = unpack_u32 body
  audio : out.flatMap Prod.snd = whole (body.drop 4)
  state : if body.length < 4 then out = [] ∧ r = { Reader.init with header := body }
    else r.got_header = true ∧ r.sample_rate = unpack_u32 body ∧ r.pending = straggler (body.drop 4)

section
variable {body : Bytes} {out : List (ℕ × Bytes)} {r : Reader}

theorem unpack_append (h : 4 ≤ body.length) (chunk : Bytes) : unpack_u32 (body ++ chunk) = unpack_u32 body := by
  rw [unpack_u32, List.take_append_of_le_length h, unpack_u32]

/-- Samples that come behind what is pending. -/
theorem Reader.push_spec (r : Reader) (chunk : Bytes) :
    (r.push chunk).1.got_header = r.got_header ∧ (r.push chunk).1.sample_rate = r.sample_rate ∧
      (r.push chunk).1.pending = straggler (r.pending ++ chunk) ∧
      (r.push chunk).2.flatMap Prod.snd = whole (r.pending ++ chunk) ∧
      ∀ piece ∈ (r.push chunk).2, piece.2.length % 2 = 0 ∧ piece.1 = r.sample_rate := by
  unfold Reader.push
  dsimp only
  split
  · next hzero =>
    refine ⟨rfl, rfl, ?_, ?_, fun piece hpiece => absurd hpiece List.not_mem_nil⟩
    · rw [straggler, hzero, List.drop_zero]
    · rw [whole, hzero]
      rfl
  · refine ⟨rfl, rfl, rfl, List.append_nil _, fun piece hpiece => ?_⟩
    rw [List.mem_singleton.1 hpiece]
    exact ⟨whole_length _, rfl⟩

/-- The samples behind the header, when it has just come. -/
theorem Read.first {chunk : Bytes} (hlong : ¬ (body ++ chunk).length < 4) :
    Read (body ++ chunk) (({ Reader.init with header := body } : Reader).read chunk).2
      (({ Reader.init with header := body } : Reader).read chunk).1 := by
  simp only [Reader.read, Reader.init, Bool.false_eq_true, if_false, hlong]
  split
  · next hnil =>
    refine ⟨fun piece hpiece => absurd hpiece List.not_mem_nil, by rw [hnil]; rfl, ?_⟩
    rw [if_neg hlong, hnil]
    exact ⟨rfl, rfl, rfl⟩
  · obtain ⟨hgot, hrate, hpending, haudio, heven⟩ := Reader.push_spec
      ⟨body ++ chunk, unpack_u32 (body ++ chunk), true, []⟩ ((body ++ chunk).drop 4)
    refine ⟨heven, haudio, ?_⟩
    rw [if_neg hlong]
    exact ⟨hgot, hrate, hpending⟩

theorem Read.step (h : Read body out r) (chunk : Bytes) :
    Read (body ++ chunk) (out ++ (r.read chunk).2) (r.read chunk).1 := by
  have hstate := h.state
  split at hstate
  · next hshort =>
    obtain ⟨rfl, rfl⟩ := hstate
    by_cases hlong : (body ++ chunk).length < 4
    · have hread : ({ Reader.init with header := body } : Reader).read chunk =
          ({ Reader.init with header := body ++ chunk }, []) := by
        simp only [Reader.read, Reader.init, Bool.false_eq_true, if_false, if_pos hlong]
      rw [hread]
      refine ⟨fun piece hpiece => absurd hpiece List.not_mem_nil, ?_, ?_⟩
      · rw [List.drop_eq_nil_of_le (Nat.le_of_lt hlong)]
        rfl
      · rw [if_pos hlong]
        exact ⟨rfl, rfl⟩
    · exact Read.first hlong
  · next hlong =>
    obtain ⟨hgot, hrate, hpending⟩ := hstate
    have hle : 4 ≤ body.length := Nat.le_of_not_lt hlong
    have hread : r.read chunk = r.push chunk := by rw [Reader.read, if_pos hgot]
    obtain ⟨hgot', hrate', hpending', haudio, heven⟩ := r.push_spec chunk
    obtain ⟨hwhole, hstraggler⟩ := carry_whole (body.drop 4) chunk
    rw [hread]
    refine ⟨fun piece hpiece => ?_, ?_, ?_⟩
    · rw [unpack_append hle]
      rcases List.mem_append.1 hpiece with hpiece | hpiece
      · exact h.even piece hpiece
      · rw [← hrate]
        exact heven piece hpiece
    · rw [List.flatMap_append, h.audio, haudio, hpending, List.drop_append_of_le_length hle, hwhole]
    · rw [if_neg (by rw [List.length_append]; omega), unpack_append hle,
        List.drop_append_of_le_length hle, hstraggler, ← hpending]
      exact ⟨hgot'.trans hgot, hrate'.trans hrate, hpending'⟩

theorem read_all_spec (h : Read body out r) (chunks : List Bytes) :
    Read (body ++ chunks.flatten) (out ++ (r.read_all chunks).2) (r.read_all chunks).1 := by
  induction chunks generalizing body out r with
  | nil => simpa [Reader.read_all] using h
  | cons chunk chunks ih =>
    have hrest := ih (h.step chunk)
    rw [List.append_assoc out] at hrest
    rw [List.flatten_cons, ← List.append_assoc, Reader.read_all]
    exact hrest

end

/-- Every utterance is forwarded as it is when, and only when, each of them is fresh; there is a transcript
    for each `audio-stop`; and the synthesis stream gives the body in whole samples, at its rate. -/
theorem bridge_forwards (ws_base : String) (events : List Event) (resp : Response) :
    (List.Forall₂ Aligned (run ws_base events).upstreams (utterances events) ↔
      ∀ utterance ∈ utterances events, Fresh utterance) ∧
    (run ws_base events).written.countP Written.is_transcript = events.countP Event.is_stop ∧
    ∀ pieces ∈ tts_stream resp,
      (∀ piece ∈ pieces, piece.2.length % 2 = 0 ∧ piece.1 = unpack_u32 resp.chunks.flatten) ∧
        Whole (pieces.flatMap Prod.snd) (resp.chunks.flatten.drop 4) := by
  refine ⟨?_, run_transcripts ws_base events, fun pieces hpieces => ?_⟩
  · have hforwarded := run_forwarded ws_base events
    generalize (run ws_base events).upstreams = upstreams at hforwarded ⊢
    generalize utterances events = spoken at hforwarded ⊢
    induction hforwarded with
    | nil => simp
    | cons hu hrest ih =>
      rw [List.forall₂_cons, List.forall_mem_cons]
      exact and_congr hu.aligned_iff ih
  · rw [tts_stream] at hpieces
    split at hpieces
    · cases hpieces
    · obtain rfl := Option.some.inj hpieces
      have hstart : Read [] [] Reader.init := by
        refine ⟨fun piece hpiece => absurd hpiece List.not_mem_nil, rfl, ?_⟩
        rw [if_pos (by decide)]
        exact ⟨rfl, rfl⟩
      have hread := read_all_spec hstart resp.chunks
      rw [List.nil_append, List.nil_append] at hread
      refine ⟨hread.even, ?_⟩
      rw [hread.audio]
      exact whole_of _

/-- An utterance of three bytes is broken off by the next `audio-start`. -/
def broken_off : List Event :=
  [.audio_start 16000, .audio_chunk 16000 [1, 2, 3], .audio_start 16000, .audio_chunk 16000 [4, 5],
    .audio_stop []]

/-- The third byte is sent in front of the samples of the next utterance. -/
theorem stale_byte_sent :
    (utterances broken_off).map Utterance.audio = [[1, 2, 3], [4, 5]] ∧
    (run "" broken_off).upstreams.map Upstream.frames = [[[1, 2]], [[3, 4], []]] ∧
    ¬ List.Forall₂ Aligned (run "" broken_off).upstreams (utterances broken_off) := by
  refine ⟨by decide, by decide, fun h => ?_⟩
  cases h with
  | cons hfirst hrest =>
    cases hrest with
    | cons hsecond hnone =>
      have hwhole : Whole [3, 4] [4, 5] := hsecond.audio
      rcases hwhole with heq | ⟨b, hb⟩
      · exact absurd heq (by decide)
      · cases (congrArg List.length hb : 3 = 2)

end LocalVoice.WyomingStt
