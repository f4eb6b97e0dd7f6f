import LocalVoice.V2V.Line

/-! The binary frames of a V1 `/v2v/stream` socket: the drains of `tts_out_task` write a sample-rate
    header and then PCM. A write is two steps, as `ws.send_bytes` can be suspended behind the write
    until the transport has room. The flag that the header is out is set when the send returns, so a
    drain that is cancelled in between leaves a header that the next one writes again; in all other
    runs the stream is well formed (`frames_well_formed`).

        elsewhere ──▶ header ──▶ header_written ──▶ elsewhere
            └──────▶ chunk ───▶ chunk_written ───▶ elsewhere -/

namespace LocalVoice.V2V.Speech
open LocalVoice.Lib

abbrev Bytes := List UInt8

/-- `struct.pack("<I", sr)`. -/
def pack (sr : ℕ) : Bytes :=
  [UInt8.ofNat sr, UInt8.ofNat (sr / 0x100), UInt8.ofNat (sr / 0x10000), UInt8.ofNat (sr / 0x1000000)]

/-- A binary frame. Whose PCM it is, is not on the wire. -/
inductive Frame where
  | header (data : Bytes)
  | pcm (sentence : ℕ) (data : Bytes)
  deriving DecidableEq

/-- Where the current drain is suspended, as far as `send_bytes` goes: waiting for `send_lock`, or in
    `ws.send_bytes` behind the write. -/
inductive Place where
  | elsewhere
  | header (data : Bytes)
  | header_written
  | chunk (data : Bytes)
  | chunk_written
  deriving DecidableEq

/-- Every sentence has an `audio_queue` of its own, which its synthesis fills whatever becomes of its
    drain. `frames` is not in the source. -/
structure Stream where
  session : Session
  place : Place
  sr_header_sent : Bool
  audio_queue : ℕ → List Bytes
  socket_open : Bool
  frames : List Frame

def Stream.init : Stream := ⟨.init, .elsewhere, false, fun _ => [], true, []⟩

inductive Write where
  | speech (a : Action)
  /-- The end of the loop of `tts_out_task`. -/
  | closing
  /-- A chunk comes from the executor's thread. -/
  | produced (sentence : ℕ) (data : Bytes)
  | send_header (sr : ℕ)
  | send_chunk
  | written
  | returned
  | socket_closes
  deriving DecidableEq

/-- The synthesis of the sentence was started. -/
def synthesis_of (sentence : ℕ) : Event → Bool
  | .started x _ => x.number = sentence
  | _ => false

namespace Stream

/-- Where a step of the drain itself is taken from: the synthesis starts behind the header, and no
    exception but a cancellation gets out of `send_bytes`. -/
def allows (S : Stream) : Action → Bool
  | .synth_starts => S.place = .elsewhere ∧ S.sr_header_sent = true
  | .synth_ends | .drain_fails => S.place = .elsewhere
  | _ => true

def follow (S : Stream) (t : Session) : Action → Stream
  | .drain_stops => { S with session := t, place := .elsewhere }
  | _ => { S with session := t }

/-- A frame on a closed socket is an exception, which `send_bytes` swallows. -/
def put (S : Stream) (frame : Frame) (place : Place) : Stream :=
  { S with place := place, frames := if S.socket_open then S.frames ++ [frame] else S.frames }

/-- `if not sr_header_sent` -/
def send_header (S : Stream) (sr : ℕ) (d : Drain) : Option Stream :=
  if d.stage = .preparing ∧ d.cancelled = false ∧ S.place = .elsewhere ∧ S.sr_header_sent = false ∧
      sr < 0x100000000 then
    some { S with place := .header (pack sr) }
  else none

/-- `audio_queue.get()`. If the drain is cancelled when an item is there, `wait_for` may return the
    item, and the cancellation is gone. -/
def send_chunk (S : Stream) (d : Drain) : Option Stream :=
  match S.audio_queue d.sentence.number with
  | data :: rest =>
    if d.stage = .synthesizing ∧ S.place = .elsewhere then
      some { S with
        session := { S.session with current_tts_task := some { d with cancelled := false } }
        place := .chunk data
        audio_queue := Function.update S.audio_queue d.sentence.number rest }
    else none
  | [] => none

/-- `ws.send_bytes` with the lock held. -/
def written (S : Stream) (d : Drain) : Option Stream :=
  match S.place, d.done || d.cancelled with
  | .header data, false => some (S.put (.header data) .header_written)
  | .chunk data, false => some (S.put (.pcm d.sentence.number data) .chunk_written)
  | _, _ => none

def returned (S : Stream) (d : Drain) : Option Stream :=
  match S.place, d.done || d.cancelled with
  | .header_written, false => some { S with place := .elsewhere, sr_header_sent := true }
  | .chunk_written, false => some { S with place := .elsewhere }
  | _, _ => none

def step (cfg : Config) (S : Stream) : Write → Option Stream
  | .speech a => if S.allows a then (S.session.step cfg a).map fun t => S.follow t a else none
  | .closing =>
    if S.session.tts_out = .head ∧ S.session.tts_flush = true ∧ S.session.tts_q = [] then
      some { S with session := { S.session with tts_out := .ended } }
    else none
  | .produced sentence data =>
    if S.session.log.any (synthesis_of sentence) then
      some { S with
        audio_queue :=
          Function.update S.audio_queue sentence (S.audio_queue sentence ++ [data]) }
    else none
  | .send_header sr => S.session.current_tts_task.bind (S.send_header sr)
  | .send_chunk => S.session.current_tts_task.bind S.send_chunk
  | .written => S.session.current_tts_task.bind S.written
  | .returned => S.session.current_tts_task.bind S.returned
  | .socket_closes => some { S with socket_open := false }

end Stream

def Writes (cfg : Config) (S : Stream) (a : Write) (T : Stream) : Prop := S.step cfg a = some T

/-- One header, and then the PCM of the sentences in the order in which they were queued; or nothing
    yet. -/
def WellFormed (frames : List Frame) : Prop :=
  frames = [] ∨ ∃ (sr : ℕ) (chunks : List (ℕ × Bytes)),
    frames = .header (pack sr) :: chunks.map (fun c => .pcm c.1 c.2) ∧
      chunks.Pairwise fun c c' => c.1 ≤ c'.1

/-- No cancellation reaches a drain between the write of the header and its return. -/
def Undisturbed (S : Stream) (a : Write) : Prop :=
  ¬(S.place = .header_written ∧ a = .speech .drain_stops)

instance (S : Stream) (a : Write) : Decidable (Undisturbed S a) := inferInstanceAs (Decidable ¬(_ ∧ _))

/-! ### The order of the sentences -/

section
variable {cfg : Config} {s t : Session} {new left : List Sentence}

/-- The numbers grow along the line, and none of the frames is of a sentence behind its head. -/
structure InOrder (s : Session) (frames : List Frame) : Prop where
  orderly : Orderly s
  sorted : s.line.Pairwise fun x y => x.number < y.number
  fresh : ∀ x ∈ s.line, x.number < s.queued
  known : ∀ n data, Frame.pcm n data ∈ frames → n < s.queued
  behind : ∀ n data, Frame.pcm n data ∈ frames → ∀ x ∈ s.line, n ≤ x.number

variable {frames : List Frame}

theorem InOrder.leaves (h : InOrder s frames) (hleaves : Leaves s t left) (hsub : left.Sublist s.line) :
    InOrder t frames := by
  obtain ⟨hline, hqueued, horderly, -, -⟩ := hleaves
  refine ⟨horderly, ?_, fun x hx => ?_, fun n data hf => ?_, fun n data hf x hx => ?_⟩
  · rw [hline]
    exact h.sorted.sublist hsub
  · rw [hline] at hx
    rw [hqueued]
    exact h.fresh x (hsub.mem hx)
  · rw [hqueued]
    exact h.known n data hf
  · rw [hline] at hx
    exact h.behind n data hf x (hsub.mem hx)

theorem InOrder.queues (h : InOrder s frames) (hqueues : Queues s t new) : InOrder t frames := by
  have hline := hqueues.line
  have hle : s.queued ≤ t.queued := by
    rw [hqueues.queued]
    exact Nat.le_add_right _ _
  refine ⟨hqueues.orderly h.orderly, ?_, fun x hx => ?_, fun n data hf => ?_, fun n data hf x hx => ?_⟩
  · rw [hline]
    refine List.pairwise_append.2 ⟨h.sorted, hqueues.sorted, fun x hx y hy => ?_⟩
    exact Nat.lt_of_lt_of_le (h.fresh x hx) (hqueues.numbers y hy).1
  · rw [hline] at hx
    rcases List.mem_append.1 hx with hx | hx
    · exact Nat.lt_of_lt_of_le (h.fresh x hx) hle
    · exact (hqueues.numbers x hx).2
  · exact Nat.lt_of_lt_of_le (h.known n data hf) hle
  · rw [hline] at hx
    rcases List.mem_append.1 hx with hx | hx
    · exact h.behind n data hf x hx
    · exact Nat.le_trans (Nat.le_of_lt (h.known n data hf)) (hqueues.numbers x hx).1

/-- A step of the TTS side; only the start of a sentence begins a synthesis. -/
theorem step_in_order {a : Action} (hst : Steps cfg s a t) (h : InOrder s frames) :
    InOrder t frames ∧ (t.synthesizing → s.synthesizing ∨ a = .synth_starts) := by
  by_cases hqueues : a.queues = true
  · obtain ⟨new, hnew⟩ := queues_spec hqueues hst
    refine ⟨h.queues hnew, ?_⟩
    rintro ⟨d, hd, hstage⟩
    exact .inl ⟨d, hnew.task ▸ hd, hstage⟩
  · have hqueues := Bool.eq_false_iff.2 hqueues
    by_cases hstart : a = .synth_starts
    · subst hstart
      obtain ⟨d, -, hline, -, hqueued, horderly, -⟩ := synth_starts_spec h.orderly hst
      refine ⟨⟨horderly, ?_, ?_, ?_, ?_⟩, fun _ => .inr rfl⟩
      · exact hline.symm ▸ h.sorted
      · exact hline.symm ▸ hqueued.symm ▸ h.fresh
      · exact hqueued.symm ▸ h.known
      · exact hline.symm ▸ h.behind
    · have hleaves := leaves_spec h.orderly hqueues hstart hst
      exact ⟨h.leaves hleaves (remains_sublist s a), fun hs => .inl (hleaves.synthesizing hs)⟩

/-- The drain goes on as if it had not been cancelled. -/
theorem InOrder.resumed (h : InOrder s frames) {d : Drain} (hd : s.current_tts_task = some d) :
    InOrder { s with current_tts_task := some { d with cancelled := false } } frames := by
  have hspoken : Session.spoken { s with current_tts_task := some { d with cancelled := false } } =
      s.spoken := by
    rw [Session.spoken, Session.spoken, hd]
    rfl
  have hline : Session.line { s with current_tts_task := some { d with cancelled := false } } =
      s.line := by
    rw [Session.line, Session.line, hspoken]
    rfl
  refine ⟨⟨fun hidle => ?_, fun hrep => hspoken.trans (h.orderly.reporting hrep)⟩, ?_, ?_, h.known, ?_⟩
  · have hnone := h.orderly.idle hidle
    rw [hd] at hnone
    cases hnone
  · exact hline.symm ▸ h.sorted
  · exact hline.symm ▸ h.fresh
  · exact hline.symm ▸ h.behind

/-- A chunk of the sentence that is being spoken is next. -/
theorem InOrder.wrote (h : InOrder s frames) {x : Sentence} (hx : s.spoken = some x) (data : Bytes) :
    InOrder s (frames ++ [.pcm x.number data]) := by
  have hline : s.line = x :: (s.taken.toList ++ s.tts_q) := by
    rw [Session.line, hx]
    rfl
  have hmem : x ∈ s.line := by
    rw [hline]
    exact List.mem_cons_self
  refine ⟨h.orderly, h.sorted, h.fresh, fun n data' hf => ?_, fun n data' hf y hy => ?_⟩
  · rcases List.mem_append.1 hf with hf | hf
    · exact h.known n data' hf
    · obtain ⟨rfl, rfl⟩ := Frame.pcm.inj (List.mem_singleton.1 hf)
      exact h.fresh x hmem
  · rcases List.mem_append.1 hf with hf | hf
    · exact h.behind n data' hf y hy
    · obtain ⟨rfl, rfl⟩ := Frame.pcm.inj (List.mem_singleton.1 hf)
      have hsorted := h.sorted
      rw [hline] at hy hsorted
      rcases List.mem_cons.1 hy with rfl | hy
      · exact Nat.le_refl _
      · exact Nat.le_of_lt (List.rel_of_pairwise_cons hsorted hy)

theorem WellFormed.concat (h : WellFormed frames) (hsome : frames ≠ []) {n : ℕ} (data : Bytes)
    (hlast : ∀ m data', Frame.pcm m data' ∈ frames → m ≤ n) :
    WellFormed (frames ++ [.pcm n data]) := by
  rcases h with hnil | ⟨sr, chunks, rfl, hsorted⟩
  · exact absurd hnil hsome
  · refine .inr ⟨sr, chunks ++ [(n, data)], by simp, ?_⟩
    refine List.pairwise_append.2 ⟨hsorted, List.pairwise_singleton .., fun c hc c' hc' => ?_⟩
    obtain rfl := List.mem_singleton.1 hc'
    exact hlast c.1 c.2 (List.mem_cons_of_mem _ (List.mem_map.2 ⟨c, hc, rfl⟩))

end

/-! ### The header and its flag -/

section
variable {cfg : Config} {S T : Stream}

/-- Until the header is written there is nothing on the wire, and behind it the flag is set or about to
    be set. -/
structure Framed (S : Stream) : Prop where
  order : InOrder S.session S.frames
  formed : WellFormed S.frames
  unsent : S.sr_header_sent = false → S.place ≠ .header_written → S.frames = []
  sent : S.sr_header_sent = true ∨ S.place = .header_written → S.frames = [] → S.socket_open = false
  synthesizing : S.session.synthesizing → S.sr_header_sent = true
  header : ∀ data, S.place = .header data → S.sr_header_sent = false ∧ ∃ sr, data = pack sr
  chunk : ∀ data, S.place = .chunk data → S.sr_header_sent = true

theorem framed_init : Framed .init := by
  refine ⟨⟨⟨fun _ => rfl, nofun⟩, .nil, nofun, nofun, nofun⟩, .inl rfl, fun _ _ => rfl, ?_, ?_, nofun,
    nofun⟩
  · rintro (h | h) <;> cases h
  · rintro ⟨d, hd, -⟩
    cases hd

/-- The session goes on, and the drain stays where it is. -/
theorem Framed.goes (h : Framed S) {t : Session} (horder : InOrder t S.frames)
    (hsynth : t.synthesizing → S.sr_header_sent = true) : Framed { S with session := t } :=
  ⟨horder, h.formed, h.unsent, h.sent, hsynth, h.header, h.chunk⟩

/-- The drain is over while it does not hold a header that is written. -/
theorem Framed.stops (h : Framed S) (hplace : S.place ≠ .header_written) :
    Framed { S with place := .elsewhere } := by
  refine ⟨h.order, h.formed, fun hflag _ => h.unsent hflag hplace, ?_, h.synthesizing, nofun, nofun⟩
  rintro (hflag | hwritten)
  · exact h.sent (.inl hflag)
  · cases hwritten

theorem Framed.speech (h : Framed S) {a : Action} {t : Session} (hallows : S.allows a = true)
    (hst : Steps cfg S.session a t) (hcalm : Undisturbed S (.speech a)) : Framed (S.follow t a) := by
  obtain ⟨horder, hsynth⟩ := step_in_order hst h.order
  have hgone : Framed { S with session := t } := by
    refine h.goes horder fun hs => ?_
    rcases hsynth hs with hs | rfl
    · exact h.synthesizing hs
    · exact (of_decide_eq_true hallows).2
  cases a with
  | drain_stops => exact hgone.stops fun hplace => hcalm ⟨hplace, rfl⟩
  | _ => exact hgone

/-- The header goes out, or is lost on a closed socket. -/
theorem Framed.put_header (h : Framed S) {data : Bytes} (hplace : S.place = .header data) :
    Framed (S.put (.header data) .header_written) := by
  obtain ⟨hflag, sr, rfl⟩ := h.header data hplace
  have hnil : S.frames = [] := h.unsent hflag (by rw [hplace]; exact nofun)
  have hframes : (S.put (.header (pack sr)) .header_written).frames =
      if S.socket_open then [.header (pack sr)] else [] := by
    rw [Stream.put, hnil]
    rfl
  have hpcm : ∀ n data, Frame.pcm n data ∉ (S.put (.header (pack sr)) .header_written).frames := by
    intro n data hf
    rw [hframes] at hf
    split at hf
    · cases List.mem_singleton.1 hf
    · cases hf
  constructor
  case order =>
    refine ⟨h.order.orderly, h.order.sorted, h.order.fresh, fun n data hf => ?_, fun n data hf => ?_⟩
    · exact absurd hf (hpcm n data)
    · exact absurd hf (hpcm n data)
  case formed =>
    rw [hframes]
    split
    · exact .inr ⟨sr, [], rfl, .nil⟩
    · exact .inl rfl
  case unsent => exact fun _ hwritten => absurd rfl hwritten
  case sent =>
    intro _ hempty
    rw [hframes] at hempty
    split at hempty
    · cases hempty
    · next hclosed => exact Bool.eq_false_iff.2 hclosed
  case synthesizing => exact h.synthesizing
  case header => exact nofun
  case chunk => exact nofun

/-- A chunk of the current sentence goes out. -/
theorem Framed.put_chunk (h : Framed S) {data : Bytes} (hplace : S.place = .chunk data) {d : Drain}
    (hd : S.session.current_tts_task = some d) (hdone : d.done = false) :
    Framed (S.put (.pcm d.sentence.number data) .chunk_written) := by
  have hspoken := spoken_eq_some.2 ⟨d, hd, hdone, rfl⟩
  have hflag := h.chunk data hplace
  have hmem : d.sentence ∈ S.session.line := by
    rw [Session.line, hspoken]
    exact List.mem_cons_self
  constructor
  case order =>
    rw [Stream.put]
    split
    · exact h.order.wrote hspoken data
    · exact h.order
  case formed =>
    rw [Stream.put]
    split
    · next hopen =>
      refine h.formed.concat (fun hnil => ?_) data fun m data' hf =>
        h.order.behind m data' hf d.sentence hmem
      rw [h.sent (.inl hflag) hnil] at hopen
      cases hopen
    · exact h.formed
  case unsent => exact fun hoff => absurd (hoff.symm.trans hflag) Bool.false_ne_true
  case sent =>
    intro _ hempty
    rw [Stream.put] at hempty
    split at hempty
    · exact absurd hempty (List.append_ne_nil_of_right_ne_nil _ (List.cons_ne_nil _ _))
    · exact h.sent (.inl hflag) hempty
  case synthesizing => exact h.synthesizing
  case header =>
    intro data heq
    cases heq
  case chunk =>
    intro data heq
    cases heq

/-- The step lemma. -/
theorem step_framed {a : Write} (hcalm : Undisturbed S a) (hst : Writes cfg S a T) (h : Framed S) :
    Framed T := by
  cases a with
  | speech a =>
    simp only [Writes, Stream.step] at hst
    split at hst
    · next hallows =>
      obtain ⟨t, ht, rfl⟩ := Option.map_eq_some_iff.1 hst
      exact h.speech hallows ht hcalm
    · cases hst
  | closing =>
    simp only [Writes, Stream.step] at hst
    split at hst
    · next hclosing =>
      cases hst
      have hidle := h.order.orderly.idle (by rw [hclosing.1]; rfl)
      have hline : Session.line { S.session with tts_out := .ended } = S.session.line := by
        rw [Session.line, Session.line, Session.taken, Session.taken, hclosing.1]
        rfl
      refine h.goes ⟨⟨fun _ => hidle, (by intro h; cases h)⟩, ?_, ?_, h.order.known, ?_⟩ h.synthesizing
      · exact hline.symm ▸ h.order.sorted
      · exact hline.symm ▸ h.order.fresh
      · exact hline.symm ▸ h.order.behind
    · cases hst
  | produced sentence data =>
    simp only [Writes, Stream.step] at hst
    split at hst
    · cases hst
      exact ⟨h.order, h.formed, h.unsent, h.sent, h.synthesizing, h.header, h.chunk⟩
    · cases hst
  | send_header sr =>
    obtain ⟨d, hd, hst⟩ := Option.bind_eq_some_iff.1 hst
    rw [Stream.send_header] at hst
    split at hst
    · next hready =>
      cases hst
      obtain ⟨-, -, hplace, hflag, -⟩ := hready
      refine ⟨h.order, h.formed, fun _ _ => ?_, ?_, h.synthesizing, ?_, (by intro data heq; cases heq)⟩
      · exact h.unsent hflag (by rw [hplace]; decide)
      · rintro (hon | hwritten)
        · exact absurd (hflag.symm.trans hon) Bool.false_ne_true
        · cases hwritten
      · rintro data heq
        cases heq
        exact ⟨hflag, sr, rfl⟩
    · cases hst
  | send_chunk =>
    obtain ⟨d, hd, hst⟩ := Option.bind_eq_some_iff.1 hst
    rw [Stream.send_chunk] at hst
    split at hst
    · split at hst
      · next hready =>
        cases hst
        have hflag := h.synthesizing ⟨d, hd, hready.1⟩
        refine ⟨h.order.resumed hd, h.formed, ?_, ?_, fun _ => hflag, (by intro data heq; cases heq),
          fun _ _ => hflag⟩
        · exact fun hoff => absurd (hoff.symm.trans hflag) Bool.false_ne_true
        · exact fun _ => h.sent (.inl hflag)
      · cases hst
    · cases hst
  | written =>
    obtain ⟨d, hd, hst⟩ := Option.bind_eq_some_iff.1 hst
    rw [Stream.written] at hst
    split at hst
    · next data hplace _ =>
      cases hst
      exact h.put_header hplace
    · next data hplace hgoes =>
      cases hst
      exact h.put_chunk hplace hd (Bool.or_eq_false_iff.1 hgoes).1
    · cases hst
  | returned =>
    obtain ⟨d, hd, hst⟩ := Option.bind_eq_some_iff.1 hst
    rw [Stream.returned] at hst
    split at hst
    · next hplace _ =>
      cases hst
      refine ⟨h.order, h.formed, (by intro h; cases h), fun _ => h.sent (.inr hplace), fun _ => rfl, ?_, ?_⟩
      all_goals
        intro data heq
        cases heq
    · next hplace _ =>
      cases hst
      exact h.stops (by rw [hplace]; decide)
    · cases hst
  | socket_closes =>
    cases hst
    exact ⟨h.order, h.formed, h.unsent, fun _ _ => rfl, h.synthesizing, h.header, h.chunk⟩

end

/-- In a run in which no cancellation comes between the write of the header and its return, the binary
    frames are one header and then the PCM of the sentences in their order. -/
theorem frames_well_formed {cfg : Config} {as : List Write} {S : Stream}
    (h : Run (restrict Undisturbed (Writes cfg)) .init as S) : WellFormed S.frames :=
  (h.invariant (I := Framed) (fun hs hst => step_framed hst.1 hst.2 hs) framed_init).formed

/-- The next sentence is taken off the queue. -/
def next_sentence : List Write := [.speech .pass, .speech .get, .speech .take_up]

/-- The header, and the synthesis starts. -/
def opened : List Write := [.send_header 24000, .written, .returned, .speech .synth_starts]

def one_chunk (sentence : ℕ) (data : Bytes) : List Write :=
  [.produced sentence data, .send_chunk, .written, .returned]

/-- The client barges in on the first of two sentences, whose synthesis goes on for a while. -/
def barged : List Write :=
  [.speech (.text "One! Two!".toList), .speech .tts_flush] ++ next_sentence ++ opened ++
    one_chunk 0 [1, 2] ++ [.speech .barge_in, .speech .drain_stops, .speech .drain_over] ++
    next_sentence ++ [.speech .synth_starts, .produced 0 [3, 4]] ++ one_chunk 1 [5, 6]

theorem frames_well_formed_barged :
    ∃ S, Run (restrict Undisturbed (Writes english)) .init barged S ∧
      S.frames = [.header (pack 24000), .pcm 0 [1, 2], .pcm 1 [5, 6]] ∧ WellFormed S.frames := by
  obtain ⟨S, hrun, hframes⟩ := Run.of_replay_any
    (fun S a => if Undisturbed S a then S.step english a else none) .init barged
    (fun S => S.frames = [.header (pack 24000), .pcm 0 [1, 2], .pcm 1 [5, 6]]) (by decide +kernel)
  have hrun' : Run (restrict Undisturbed (Writes english)) .init barged S := Run.restrict_mono hrun
  exact ⟨S, hrun', of_decide_eq_true hframes, frames_well_formed hrun'⟩

/-- The client barges in while the send of the header waits for room in the transport. -/
def barged_at_header : List Write :=
  [.speech (.text "One! Two!".toList), .speech .tts_flush] ++ next_sentence ++
    [.send_header 24000, .written, .speech .barge_in, .speech .drain_stops, .speech .drain_over] ++
    next_sentence ++ opened

theorem header_written_twice :
    ¬ ∀ (cfg : Config) (as : List Write) (S : Stream), Run (Writes cfg) .init as S →
      WellFormed S.frames := by
  intro hall
  obtain ⟨S, hrun, hframes⟩ := Run.of_replay_any (Stream.step english) .init barged_at_header
    (fun S => S.frames = [.header (pack 24000), .header (pack 24000)]) (by decide +kernel)
  have hformed := hall english barged_at_header S hrun
  rw [of_decide_eq_true hframes] at hformed
  rcases hformed with hnil | ⟨sr, chunks, heq, -⟩
  · cases hnil
  · have htail := (List.cons.inj heq).2
    cases chunks with
    | nil => cases htail
    | cons c chunks => cases (List.cons.inj htail).1

end LocalVoice.V2V.Speech
