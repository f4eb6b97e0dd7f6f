import Mathlib.Algebra.Order.Field.Rat
import LocalVoice.Lib.Replay

/-! `BaseApp._mic_pump` and `_update_vad` of `agent/ovs_agent/app_base.py`, with the `PrerollRing` of
    `audio/vad_gate.py`. A chunk is taken when the loop gets it, and done with before the next; what is
    sent to SLV is written. Levels and times are exact.

        a client VAD:  idle: the ring ──onset──▶ speech: the ring, then every chunk
        energy gate:   closed: zeros, and the ring ──loud──▶ open: the ring, then every chunk
        neither:       every chunk -/

namespace LocalVoice.MicPump
open LocalVoice.Lib

abbrev Bytes := List UInt8

inductive ConvState where
  | idle
  | listening
  | thinking
  | speaking
  | barged_in
  | sleeping
  deriving DecidableEq

/-- `amplify` is what the makeup gain makes of a chunk: the chunk itself where the gain is 1, or numpy does
    not take it. `push_to_talk_no_vad_silence`: the pipeline is push-to-talk, and has it set. -/
structure Config where
  chunk_ms : ℤ
  client_vad : Bool
  gate_enabled : Bool
  gate_open : ℚ
  gate_close : ℚ
  gate_hangover_ms : ℚ
  amplify : Bytes → Bytes
  drive_eos : Bool
  eos_min_speech_ms : ℚ
  drop_while_speaking : Bool
  client_vad_speech_min_ms : ℤ
  client_vad_silence_ms : ℤ
  client_vad_drive_eos : Bool
  push_to_talk_no_vad_silence : Bool

def Config.preroll_max (cfg : Config) : ℕ := (max 1 (400 / max cfg.chunk_ms 1)).toNat

/-- An empty chunk is not amplified. -/
def Config.gained (cfg : Config) (chunk : Bytes) : Bytes := if chunk = [] then chunk else cfg.amplify chunk

/-! ### The client VAD -/

inductive VadState where
  | idle
  | speech
  deriving DecidableEq

structure Vad where
  state : VadState
  speech_ms : ℤ
  silence_ms : ℤ
  eos_sent : Bool

/-- Whether what is called at the end of speech raises, before it has sent `asr_eos` or after. -/
inductive Failure where
  | no
  | before_eos
  | after_eos
  deriving DecidableEq

/-- A chunk, and what the loop finds with it: the state, why it may have to be dropped, its level and the
    time, whether `asr_eos` was sent this turn, the verdict of the client VAD, which may raise, and what
    other tasks have made of the VAD's fields, before the chunk and while `_update_vad` awaits. -/
structure Captured where
  chunk : Bytes
  state : ConvState
  reconnecting : Bool
  wake_skip : Bool
  local_output : Bool
  advertising : Bool
  rms : ℚ
  now : ℚ
  eos_sent : Bool
  verdict : Option Bool
  fails : Failure
  before : Option Vad
  after : Option Vad

section
variable (cfg : Config)

/-- `_update_vad`, and whether it comes to `send_asr_eos_once`. -/
def update_vad (v : Vad) (x : Captured) : Vad × Bool :=
  if x.state = .sleeping ∨ cfg.push_to_talk_no_vad_silence then (v, false)
  else
    match x.verdict with
    | none => (v, false)
    | some is_speech =>
      match v.state, is_speech with
      | .idle, true =>
        let speech_ms := v.speech_ms + cfg.chunk_ms
        if cfg.client_vad_speech_min_ms ≤ speech_ms then (⟨.speech, speech_ms, 0, false⟩, false)
        else ({ v with speech_ms := speech_ms }, false)
      | .idle, false => ({ v with speech_ms := 0 }, false)
      | .speech, false =>
        let silence_ms := v.silence_ms + cfg.chunk_ms
        if cfg.client_vad_silence_ms ≤ silence_ms then
          let eos := !v.eos_sent && cfg.client_vad_drive_eos && x.fails ≠ .before_eos
          -- an exception leaves the state as it is
          if !v.eos_sent && x.fails ≠ .no then ({ v with silence_ms := silence_ms }, eos)
          else (⟨.idle, 0, 0, true⟩, eos)
        else ({ v with silence_ms := silence_ms }, false)
      | .speech, true => ({ v with silence_ms := 0 }, false)

/-! ### The energy gate -/

structure Gate where
  opened : Bool
  opened_at : ℚ
  last_loud_ts : ℚ

/-- `_reset_energy_gate`. -/
def Gate.init : Gate := ⟨false, 0, 0⟩

/-- The gate after a level, and whether it has closed on what was long enough for an `asr_eos`. -/
def Gate.hear (g : Gate) (rms now : ℚ) : Gate × Bool :=
  if cfg.gate_open ≤ rms then (⟨true, if g.opened then g.opened_at else now, now⟩, false)
  else if rms < cfg.gate_close ∧ cfg.gate_hangover_ms ≤ (now - g.last_loud_ts) * 1000 then
    ({ g with opened := false },
      g.opened && cfg.drive_eos && cfg.eos_min_speech_ms ≤ (g.last_loud_ts - g.opened_at) * 1000)
  else (g, false)

/-! ### The pump -/

/-- What is written, with the number of the chunk it is written for. -/
inductive Event where
  | real (k : ℕ) (pcm : Bytes)
  | zeros (k : ℕ) (pcm : Bytes)
  | asr_eos
  deriving DecidableEq

/-- `captured` counts the chunks, by which the ring numbers those that it holds; the code does not. -/
structure Pump where
  captured : ℕ
  ring : List (ℕ × Bytes)
  gate : Gate
  vad : Vad

def Pump.init : Pump := ⟨0, [], .init, ⟨.idle, 0, 0, false⟩⟩

/-- The conditions on which a chunk is dropped, and the ring and the gate cleared. -/
def drops (x : Captured) : Bool :=
  x.state = .sleeping || (cfg.drop_while_speaking && (x.state = .speaking || x.state = .thinking)) ||
    x.reconnecting || x.wake_skip || x.local_output || x.advertising

/-- `send_asr_eos_once`, where it is called. -/
def Captured.send_asr_eos_once (x : Captured) (called : Bool) : List Event :=
  if called && !x.eos_sent then [.asr_eos] else []

/-- `PrerollRing.append`. -/
def append (ring : List (ℕ × Bytes)) (y : ℕ × Bytes) : List (ℕ × Bytes) :=
  (ring ++ [y]).rtake cfg.preroll_max

def Pump.step (p : Pump) (x : Captured) : Pump × List Event :=
  let k := p.captured
  let vad := x.before.getD p.vad
  if drops cfg x then (⟨k + 1, [], .init, vad⟩, [])
  else if cfg.client_vad then
    let (vad, called) := update_vad cfg vad x
    let vad := x.after.getD vad
    let eos := x.send_asr_eos_once called
    if vad.state = .speech then
      (⟨k + 1, [], p.gate, vad⟩, eos ++ (p.ring ++ [(k, x.chunk)]).map fun y => .real y.1 y.2)
    else (⟨k + 1, append cfg p.ring (k, x.chunk), p.gate, vad⟩, eos)
  else if cfg.gate_enabled then
    let (gate, pending) := p.gate.hear cfg x.rms x.now
    if gate.opened then
      let (drained, ring) := if p.gate.opened then ([], p.ring) else (p.ring, [])
      (⟨k + 1, ring, gate, vad⟩, (drained ++ [(k, x.chunk)]).map fun y => .real y.1 (cfg.gained y.2))
    else
      -- the `asr_eos` waits until the chunk that closed the gate is written
      (⟨k + 1, append cfg p.ring (k, x.chunk), gate, vad⟩,
        .zeros k (List.replicate x.chunk.length 0) :: x.send_asr_eos_once pending)
  else (⟨k + 1, p.ring, p.gate, vad⟩, [.real k (cfg.gained x.chunk)])

/-- After a chunk the pump is passing on: the client VAD is in speech, or the gate is open, or neither
    withholds anything. -/
def Pump.live (p : Pump) : Bool :=
  if cfg.client_vad then p.vad.state = .speech else !cfg.gate_enabled || p.gate.opened

def fate (x : Captured) (after : Pump) : Fate :=
  if drops cfg x then .dropped else if after.live cfg then .live else .withheld

/-- The pump after some chunks, what it has written, and what became of each chunk. -/
structure Session where
  pump : Pump
  written : List Event
  fates : List Fate

def Session.step (s : Session) (x : Captured) : Session :=
  let r := s.pump.step cfg x
  ⟨r.1, s.written ++ r.2, s.fates ++ [fate cfg x r.1]⟩

def mic_pump (xs : List Captured) : Session := xs.foldl (Session.step cfg) ⟨.init, [], []⟩

/-! ### What the pump keeps -/

/-- The number of the chunk, where real audio is written. -/
def Event.real? : Event → Option ℕ
  | .real k _ => some k
  | _ => none

/-- The number of the chunk, where zeros are written for it. -/
def Event.zeros? : Event → Option ℕ
  | .zeros k _ => some k
  | _ => none

/-- The numbers of the chunks that were written as real audio. -/
def reals (es : List Event) : List ℕ := es.filterMap Event.real?

/-- The numbers of the chunks that zeros were written for. -/
def blanks (es : List Event) : List ℕ := es.filterMap Event.zeros?

/-- What is sent for a chunk; under a client VAD it is not amplified. -/
def Config.sent (chunk : Bytes) : Bytes := if cfg.client_vad then chunk else cfg.gained chunk

/-- What is written for a chunk is the chunk, or as many zeros. -/
def Event.Of (xs : List Captured) : Event → Prop
  | .real k pcm => ∃ x, xs[k]? = some x ∧ pcm = cfg.sent x.chunk
  | .zeros k pcm => ∃ x, xs[k]? = some x ∧ pcm = List.replicate x.chunk.length 0
  | .asr_eos => True

/-- The pump loses, repeats and reorders no speech. -/
structure Kept (xs : List Captured) (s : Session) : Prop where
  settled : s.fates.length = xs.length
  dropped : ∀ (k : ℕ) x, xs[k]? = some x → (s.fates[k]? = some .dropped ↔ drops cfg x = true)
  /-- Real audio is written for what is heard: the live chunks, and before them the last withheld ones. -/
  heard : ∀ k, k ∈ reals s.written ↔ Heard cfg.preroll_max s.fates k
  in_order : (reals s.written).Pairwise (· < ·)
  /-- Zeros are written for what the gate withholds, once each. -/
  silent : ∀ k, k ∈ blanks s.written ↔ cfg.client_vad = false ∧ s.fates[k]? = some .withheld
  once : (blanks s.written).Pairwise (· < ·)
  replaced : cfg.client_vad = false → ∀ (k : ℕ) x, xs[k]? = some x → drops cfg x = false →
    k ∉ reals s.written → k ∈ blanks s.written
  audio : ∀ e ∈ s.written, e.Of cfg xs
  /-- The `asr_eos` of the gate comes after the chunks up to the one that closed it, and before the rest. -/
  eos : cfg.client_vad = false → ∀ pre post, s.written = pre ++ .asr_eos :: post → ∃ k,
    s.fates[k]? = some .live ∧ s.fates[k + 1]? = some .withheld ∧
      (∀ j ∈ reals pre, j ≤ k) ∧ ∀ j ∈ reals post, k < j
  /-- After a chunk is dropped nothing is written for it, or for those before it. -/
  after_drop : ∀ m, s.fates[m]? = some .dropped → ∃ later,
    s.written = (mic_pump cfg (xs.take (m + 1))).written ++ later ∧
      ∀ k, k ∈ reals later ∨ k ∈ blanks later → m < k

/-! ### A chunk -/

/-- What a chunk does to the pump, by what becomes of it. -/
inductive Does (p : Pump) (x : Captured) : Fate → Pump → List Event → Prop where
  | dropped {gate vad} (hdrop : drops cfg x = true) (hgate : gate.opened = false) :
      Does p x .dropped ⟨p.captured + 1, [], gate, vad⟩ []
  | withheld {gate vad eos} (hdrop : drops cfg x = false)
      (hgate : cfg.client_vad = false → cfg.gate_enabled = true ∧ gate.opened = false)
      (heos : eos = [] ∨ eos = [.asr_eos] ∧ (cfg.client_vad = false → p.gate.opened = true)) :
      Does p x .withheld ⟨p.captured + 1, append cfg p.ring (p.captured, x.chunk), gate, vad⟩
        ((if cfg.client_vad then [] else [.zeros p.captured (List.replicate x.chunk.length 0)]) ++ eos)
  | live {gate vad eos} (hdrop : drops cfg x = false)
      (heos : eos = [] ∨ eos = [.asr_eos] ∧ cfg.client_vad = true) :
      Does p x .live ⟨p.captured + 1, [], gate, vad⟩
        (eos ++ (p.ring ++ [(p.captured, x.chunk)]).map fun y => .real y.1 (cfg.sent y.2))

variable {cfg} {p : Pump} {x : Captured} {xs : List Captured} {s : Session}

theorem eos_or (x : Captured) (called : Bool) :
    x.send_asr_eos_once called = [] ∨ x.send_asr_eos_once called = [.asr_eos] ∧ called = true := by
  unfold Captured.send_asr_eos_once
  cases called with
  | false => exact .inl rfl
  | true => cases x.eos_sent <;> simp

/-- The gate closes on an `asr_eos` only when it was open. -/
theorem Gate.hear_pending {g : Gate} {rms now : ℚ} (h : (g.hear cfg rms now).2 = true) : g.opened = true := by
  unfold Gate.hear at h
  split at h
  · cases h
  · split at h
    · simp only [Bool.and_eq_true] at h
      exact h.1.1
    · cases h

/-- While the gate is open, or nothing is withheld, the ring is empty. -/
def Pump.Drained (cfg : Config) (p : Pump) : Prop :=
  cfg.client_vad = false → p.gate.opened = true ∨ cfg.gate_enabled = false → p.ring = []

theorem step_does (hp : p.Drained cfg) :
    Does cfg p x (fate cfg x (p.step cfg x).1) (p.step cfg x).1 (p.step cfg x).2 := by
  unfold Pump.step fate Pump.live
  cases hdrop : drops cfg x with
  | true => exact .dropped hdrop rfl
  | false =>
    cases hvad : cfg.client_vad with
    | true =>
      obtain ⟨⟨v, called⟩, hupdate⟩ : ∃ r, update_vad cfg (x.before.getD p.vad) x = r := ⟨_, rfl⟩
      have heos := eos_or x called
      by_cases hspeech : (x.after.getD v).state = .speech
      · have hdoes : Does cfg p x .live ⟨p.captured + 1, [], p.gate, x.after.getD v⟩ _ :=
          .live hdrop (heos.imp_right fun h => ⟨h.1, hvad⟩)
        simpa [hvad, hupdate, hspeech, Config.sent] using hdoes
      · have hdoes : Does cfg p x .withheld ⟨p.captured + 1, _, p.gate, x.after.getD v⟩ _ :=
          .withheld hdrop (fun h => by rw [hvad] at h; cases h)
            (heos.imp_right fun h => ⟨h.1, fun h => by rw [hvad] at h; cases h⟩)
        simpa [hvad, hupdate, hspeech] using hdoes
    | false =>
      cases henabled : cfg.gate_enabled with
      | true =>
        have heos := eos_or x (p.gate.hear cfg x.rms x.now).2
        cases hopened : (p.gate.hear cfg x.rms x.now).1.opened with
        | true =>
          have hdoes : Does cfg p x .live
              ⟨p.captured + 1, [], (p.gate.hear cfg x.rms x.now).1, x.before.getD p.vad⟩ _ :=
            .live hdrop (.inl rfl)
          cases hbefore : p.gate.opened with
          | true =>
            have hring : p.ring = [] := hp hvad (.inl hbefore)
            simpa [hvad, hopened, hring, Config.sent] using hdoes
          | false => simpa [hvad, hopened, Config.sent] using hdoes
        | false =>
          have hdoes : Does cfg p x .withheld
              ⟨p.captured + 1, _, (p.gate.hear cfg x.rms x.now).1, x.before.getD p.vad⟩ _ :=
            .withheld hdrop (fun _ => ⟨henabled, hopened⟩)
              (heos.imp_right fun h => ⟨h.1, fun _ => Gate.hear_pending h.2⟩)
          simpa [hvad, hopened] using hdoes
      | false =>
        have hring : p.ring = [] := hp hvad (.inr henabled)
        have hdoes : Does cfg p x .live ⟨p.captured + 1, [], p.gate, x.before.getD p.vad⟩ _ :=
          .live hdrop (.inl rfl)
        simpa [hvad, hring, Config.sent] using hdoes

theorem Does.drained {p' : Pump} {f : Fate} {es : List Event} (h : Does cfg p x f p' es) :
    p'.Drained cfg := by
  cases h with
  | dropped | live => exact fun _ _ => rfl
  | withheld _ hgate =>
    intro hvad hopen
    obtain ⟨henabled, hclosed⟩ := hgate hvad
    rcases hopen with hopen | hopen
    · exact absurd (hclosed.symm.trans hopen) (by decide)
    · exact absurd (henabled.symm.trans hopen) (by decide)

theorem Does.captured {p' : Pump} {f : Fate} {es : List Event} (h : Does cfg p x f p' es) :
    p'.captured = p.captured + 1 := by
  cases h <;> rfl

theorem reals_append (es es' : List Event) : reals (es ++ es') = reals es ++ reals es' :=
  List.filterMap_append

theorem blanks_append (es es' : List Event) : blanks (es ++ es') = blanks es ++ blanks es' :=
  List.filterMap_append

theorem reals_sent (sent : Bytes → Bytes) (ys : List (ℕ × Bytes)) :
    reals (ys.map fun y => .real y.1 (sent y.2)) = ys.map Prod.fst := by
  induction ys with
  | nil => rfl
  | cons y ys ih => exact congrArg (y.1 :: ·) ih

theorem blanks_sent (sent : Bytes → Bytes) (ys : List (ℕ × Bytes)) :
    blanks (ys.map fun y => .real y.1 (sent y.2)) = [] := by
  induction ys with
  | nil => rfl
  | cons y ys ih => exact ih

theorem append_fst (ring : List (ℕ × Bytes)) (y : ℕ × Bytes) :
    (append cfg ring y).map Prod.fst = (ring.map Prod.fst ++ [y.1]).rtake cfg.preroll_max := by
  simp [append, List.rtake, List.map_drop]

theorem mem_append_ring {ring : List (ℕ × Bytes)} {y z : ℕ × Bytes} (h : z ∈ append cfg ring y) :
    z ∈ ring ∨ z = y := by
  unfold append List.rtake at h
  simpa using List.mem_of_mem_drop h

/-- What a chunk adds to the numbers of what is written, and to those in the ring. -/
theorem Does.replays {p' : Pump} {f : Fate} {es : List Event} (h : Does cfg p x f p' es) :
    (⟨p'.ring.map Prod.fst, reals es⟩ : Replay ℕ) =
        Replay.step cfg.preroll_max ⟨p.ring.map Prod.fst, []⟩ p.captured f ∧
      blanks es = if cfg.client_vad = false ∧ f = .withheld then [p.captured] else [] := by
  have hquiet : ∀ {eos : List Event} {q : Prop}, eos = [] ∨ eos = [.asr_eos] ∧ q →
      reals eos = [] ∧ blanks eos = [] := by
    rintro eos q (rfl | ⟨rfl, -⟩) <;> exact ⟨rfl, rfl⟩
  cases h with
  | dropped => exact ⟨rfl, by simp [blanks]⟩
  | withheld _ _ heos =>
    rw [reals_append, blanks_append, (hquiet heos).1, (hquiet heos).2, append_fst]
    cases cfg.client_vad <;> exact ⟨rfl, rfl⟩
  | live _ heos =>
    rw [reals_append, blanks_append, (hquiet heos).1, (hquiet heos).2, reals_sent, blanks_sent]
    simp [Replay.step]

theorem Does.dropped_iff {p' : Pump} {f : Fate} {es : List Event} (h : Does cfg p x f p' es) :
    f = .dropped ↔ drops cfg x = true := by
  cases h with
  | dropped hdrop => exact iff_of_true rfl hdrop
  | withheld hdrop | live hdrop =>
    rw [hdrop]
    decide

/-- What is written for a chunk, and what the ring holds then, is that chunk and what the ring held. -/
theorem Does.places {p' : Pump} {f : Fate} {es : List Event} {lo : ℕ} (h : Does cfg p x f p' es)
    (hring : ∀ y ∈ p.ring, lo ≤ y.1) (hlo : lo ≤ p.captured) :
    (∀ y ∈ p'.ring, lo ≤ y.1) ∧ ∀ k, k ∈ reals es ∨ k ∈ blanks es → lo ≤ k := by
  obtain ⟨hreals, hblanks⟩ := h.replays
  have hblank : ∀ k ∈ blanks es, lo ≤ k := by
    intro k hk
    rw [hblanks] at hk
    split at hk
    · rw [List.mem_singleton.1 hk]
      exact hlo
    · cases hk
  have hreal : ∀ k ∈ reals es, lo ≤ k := by
    intro k hk
    have hout : reals es = (Replay.step cfg.preroll_max _ p.captured f).out := congrArg Replay.out hreals
    rw [hout] at hk
    cases f with
    | dropped | withheld => cases hk
    | live =>
      rcases List.mem_append.1 hk with hk | hk
      · obtain ⟨y, hy, rfl⟩ := List.mem_map.1 hk
        exact hring y hy
      · rw [List.mem_singleton.1 hk]
        exact hlo
  refine ⟨fun y hy => ?_, fun k hk => hk.elim (hreal k) (hblank k)⟩
  cases h with
  | dropped | live => cases hy
  | withheld =>
    rcases mem_append_ring hy with hy | rfl
    · exact hring y hy
    · exact hlo

theorem Event.Of.concat {e : Event} (h : e.Of cfg xs) (x : Captured) : e.Of cfg (xs ++ [x]) := by
  cases e with
  | asr_eos => trivial
  | real k pcm | zeros k pcm =>
    obtain ⟨y, hy, hpcm⟩ := h
    exact ⟨y, get_concat_iff.2 (.inl hy), hpcm⟩

theorem Does.audio {p' : Pump} {f : Fate} {es : List Event} (h : Does cfg p x f p' es)
    (hcaptured : p.captured = xs.length)
    (hheld : ∀ y ∈ p.ring, ∃ z, xs[y.1]? = some z ∧ y.2 = z.chunk) :
    (∀ y ∈ p'.ring, ∃ z, (xs ++ [x])[y.1]? = some z ∧ y.2 = z.chunk) ∧
      ∀ e ∈ es, e.Of cfg (xs ++ [x]) := by
  have hnew : (xs ++ [x])[p.captured]? = some x := get_concat_iff.2 (.inr ⟨hcaptured, rfl⟩)
  have hrun : ∀ y ∈ p.ring ++ [(p.captured, x.chunk)], ∃ z,
      (xs ++ [x])[y.1]? = some z ∧ y.2 = z.chunk := by
    intro y hy
    rcases List.mem_append.1 hy with hy | hy
    · obtain ⟨z, hz, hchunk⟩ := hheld y hy
      exact ⟨z, get_concat_iff.2 (.inl hz), hchunk⟩
    · rw [List.mem_singleton.1 hy]
      exact ⟨x, hnew, rfl⟩
  have hquiet : ∀ {eos : List Event} {q : Prop}, eos = [] ∨ eos = [.asr_eos] ∧ q →
      ∀ e ∈ eos, e.Of cfg (xs ++ [x]) := by
    rintro eos q (rfl | ⟨rfl, -⟩) e he
    · cases he
    · rw [List.mem_singleton.1 he]
      trivial
  cases h with
  | dropped => exact ⟨fun y hy => (by cases hy), fun e he => (by cases he)⟩
  | withheld _ _ heos =>
    refine ⟨fun y hy => hrun y ?_, fun e he => ?_⟩
    · simpa using mem_append_ring hy
    · rcases List.mem_append.1 he with he | he
      · split at he
        · cases he
        · rw [List.mem_singleton.1 he]
          exact ⟨x, hnew, rfl⟩
      · exact hquiet heos e he
  | live _ heos =>
    refine ⟨fun y hy => (by cases hy), fun e he => ?_⟩
    rcases List.mem_append.1 he with he | he
    · exact hquiet heos e he
    · obtain ⟨y, hy, rfl⟩ := List.mem_map.1 he
      obtain ⟨z, hz, hchunk⟩ := hrun y hy
      exact ⟨z, hz, congrArg cfg.sent hchunk⟩

/-- The gate sends an `asr_eos` with the chunk that closes it, and no real audio with that. -/
theorem Does.closes {p' : Pump} {f : Fate} {es : List Event} (h : Does cfg p x f p' es)
    (hvad : cfg.client_vad = false) (hmem : .asr_eos ∈ es) :
    f = .withheld ∧ p.gate.opened = true ∧ reals es = [] := by
  have hreals := h.replays.1
  cases h with
  | dropped => cases hmem
  | withheld _ _ heos =>
    refine ⟨rfl, ?_, congrArg Replay.out hreals⟩
    rcases heos with rfl | ⟨-, hopened⟩
    · simp [hvad] at hmem
    · exact hopened hvad
  | live _ heos =>
    rcases heos with rfl | ⟨-, hclient⟩
    · simp at hmem
    · exact absurd (hvad.symm.trans hclient) (by decide)

/-- An `asr_eos` is among what was written, or among what is added. -/
theorem eos_split {w es pre post : List Event} (h : w ++ es = pre ++ .asr_eos :: post) :
    (∃ mid, w = pre ++ .asr_eos :: mid ∧ post = mid ++ es) ∨
      ∃ mid, pre = w ++ mid ∧ es = mid ++ .asr_eos :: post := by
  rcases List.append_eq_append_iff.1 h with ⟨mid, hpre, hes⟩ | ⟨mid, hw, hpost⟩
  · exact .inr ⟨mid, hpre, hes⟩
  · cases mid with
    | nil => exact .inr ⟨[], by simpa using hw.symm, hpost.symm⟩
    | cons e mid =>
      obtain ⟨rfl, hmid⟩ := List.cons.inj hpost
      exact .inl ⟨mid, hw, hmid⟩

/-! ### The run -/

theorem mic_pump_concat (cfg : Config) (xs : List Captured) (x : Captured) :
    mic_pump cfg (xs ++ [x]) = (mic_pump cfg xs).step cfg x := by
  simp [mic_pump]

/-- The pump after some chunks: the ring and what is written are those of `replayed`, and an `asr_eos` of the
    gate lies between the chunks up to some opening's last and those after. -/
structure Inv (cfg : Config) (xs : List Captured) (s : Session) : Prop where
  captured : s.pump.captured = xs.length
  length : s.fates.length = xs.length
  replays : (⟨s.pump.ring.map Prod.fst, reals s.written⟩ : Replay ℕ) = replayed cfg.preroll_max s.fates
  silent : blanks s.written = if cfg.client_vad then [] else places .withheld s.fates
  held : ∀ y ∈ s.pump.ring, ∃ x, xs[y.1]? = some x ∧ y.2 = x.chunk
  audio : ∀ e ∈ s.written, e.Of cfg xs
  drained : s.pump.Drained cfg
  dropped : ∀ (k : ℕ) x, xs[k]? = some x → (s.fates[k]? = some .dropped ↔ drops cfg x = true)
  opened : cfg.client_vad = false → s.pump.gate.opened = true → ∃ i, i + 1 = xs.length ∧
    s.fates[i]? = some .live
  eos : cfg.client_vad = false → ∀ pre post, s.written = pre ++ .asr_eos :: post → ∃ k,
    s.fates[k]? = some .live ∧ s.fates[k + 1]? = some .withheld ∧ (∀ j ∈ reals pre, j ≤ k) ∧
      (∀ j ∈ reals post, k < j) ∧ ∀ y ∈ s.pump.ring, k < y.1

theorem Inv.init (cfg : Config) : Inv cfg [] ⟨.init, [], []⟩ := by
  refine ⟨rfl, rfl, rfl, ?_, fun y hy => ?_, fun e he => ?_, fun _ _ => rfl, fun k x hk => ?_,
    fun _ hopen => ?_, fun _ pre post h => ?_⟩
  · cases cfg.client_vad <;> rfl
  · cases hy
  · cases he
  · cases hk
  · cases hopen
  · cases pre <;> cases h

theorem Inv.reals_eq (h : Inv cfg xs s) : reals s.written = (replayed cfg.preroll_max s.fates).out :=
  congrArg Replay.out h.replays

theorem Inv.real_lt (h : Inv cfg xs s) {j : ℕ} (hj : j ∈ reals s.written) : j < xs.length := by
  rw [h.reals_eq] at hj
  exact h.length ▸ replayed_lt hj

theorem Inv.eos_step (h : Inv cfg xs s) {p' : Pump} {f : Fate} {es pre post : List Event}
    (hdoes : Does cfg s.pump x f p' es) (hvad : cfg.client_vad = false)
    (hwritten : s.written ++ es = pre ++ .asr_eos :: post) : ∃ k,
    (s.fates ++ [f])[k]? = some .live ∧ (s.fates ++ [f])[k + 1]? = some .withheld ∧
      (∀ j ∈ reals pre, j ≤ k) ∧ (∀ j ∈ reals post, k < j) ∧ ∀ y ∈ p'.ring, k < y.1 := by
  have hget : ∀ {i c}, s.fates[i]? = some c → (s.fates ++ [f])[i]? = some c :=
    fun hi => get_concat_iff.2 (.inl hi)
  rcases eos_split hwritten with ⟨mid, hw, rfl⟩ | ⟨mid, rfl, hes⟩
  · obtain ⟨k, hlive, hheld, hpre, hmid, hring⟩ := h.eos hvad pre mid hw
    have hlt : k + 1 ≤ s.pump.captured := by
      rw [h.captured, ← h.length]
      exact Nat.le_of_lt (lt_length_of_get hheld)
    obtain ⟨hring', hplaces⟩ := hdoes.places hring hlt
    refine ⟨k, hget hlive, hget hheld, hpre, fun j hj => ?_, hring'⟩
    rw [reals_append] at hj
    rcases List.mem_append.1 hj with hj | hj
    · exact hmid j hj
    · exact hplaces j (.inl hj)
  · have hmem : .asr_eos ∈ es := by
      rw [hes]
      exact List.mem_append_right mid List.mem_cons_self
    obtain ⟨rfl, hopened, hreals⟩ := hdoes.closes hvad hmem
    -- the gate was open, so that the chunk before was live, and the ring is empty
    obtain ⟨i, hi, hlive⟩ := h.opened hvad hopened
    have hempty : s.pump.ring = [] := h.drained hvad (.inl hopened)
    have hcaptured : i < s.pump.captured := by
      rw [h.captured, ← hi]
      exact Nat.lt_succ_self i
    have hring : ∀ y ∈ s.pump.ring, i + 1 ≤ y.1 := by
      rw [hempty]
      exact fun y hy => (by cases hy)
    have hnone : reals mid = [] ∧ reals post = [] := by
      have hsplit : reals es = reals mid ++ reals post := by
        rw [hes, reals_append]
        rfl
      exact List.append_eq_nil_iff.1 (hsplit.symm.trans hreals)
    refine ⟨i, hget hlive, get_concat_iff.2 (.inr ⟨hi.trans h.length.symm, rfl⟩), fun j hj => ?_, ?_,
      (hdoes.places hring hcaptured).1⟩
    · rw [reals_append, hnone.1, List.append_nil] at hj
      have hlt := h.real_lt hj
      omega
    · rw [hnone.2]
      exact fun j hj => (by cases hj)

/-- With the gate open, the chunk was passed on. -/
theorem Does.opened {p' : Pump} {f : Fate} {es : List Event} (h : Does cfg p x f p' es)
    (hvad : cfg.client_vad = false) (hopened : p'.gate.opened = true) : f = .live := by
  cases h with
  | dropped _ hgate => exact absurd (hgate.symm.trans hopened) (by decide)
  | withheld _ hgate => exact absurd ((hgate hvad).2.symm.trans hopened) (by decide)
  | live => rfl

theorem Inv.step (h : Inv cfg xs s) (x : Captured) : Inv cfg (xs ++ [x]) (s.step cfg x) := by
  have hdoes := step_does h.drained (x := x)
  obtain ⟨hreals, hblanks⟩ := hdoes.replays
  obtain ⟨hheld, haudio⟩ := hdoes.audio h.captured h.held
  have hcaptured : s.pump.captured = s.fates.length := h.captured.trans h.length.symm
  refine ⟨?_, ?_, ?_, ?_, hheld, fun e he => ?_, hdoes.drained, fun k y hk => ?_, fun hvad hopened => ?_,
    fun hvad pre post hw => h.eos_step hdoes hvad hw⟩
  · exact hdoes.captured.trans (by simp [h.captured])
  · simp [Session.step, h.length]
  · simp only [Session.step]
    rw [replayed_concat, ← h.replays, reals_append, Replay.step_out, ← hcaptured, ← hreals]
  · simp only [Session.step]
    rw [blanks_append, h.silent, hblanks, places_concat, hcaptured]
    cases cfg.client_vad <;> simp
  · rcases List.mem_append.1 he with he | he
    · exact (h.audio e he).concat x
    · exact haudio e he
  · rcases get_concat_iff.1 hk with hk | ⟨rfl, rfl⟩
    · have hlt : k < s.fates.length := by
        rw [h.length]
        exact lt_length_of_get hk
      simpa [Session.step, List.getElem?_append_left hlt] using h.dropped k y hk
    · simpa [Session.step, ← h.length] using hdoes.dropped_iff
  · exact ⟨xs.length, by simp, get_concat_iff.2 (.inr ⟨h.length.symm, hdoes.opened hvad hopened⟩)⟩

theorem inv_mic_pump (cfg : Config) (xs : List Captured) : Inv cfg xs (mic_pump cfg xs) := by
  induction xs using List.reverseRecOn with
  | nil => exact .init cfg
  | append_singleton xs x ih =>
    rw [mic_pump_concat]
    exact ih.step x

/-- With nothing in the ring from before `lo`, nothing from before it is written any more. -/
theorem written_later {lo : ℕ} (hdrained : s.pump.Drained cfg) (hring : ∀ y ∈ s.pump.ring, lo ≤ y.1)
    (hlo : lo ≤ s.pump.captured) (xs : List Captured) : ∃ later,
    (xs.foldl (Session.step cfg) s).written = s.written ++ later ∧
      ∀ k, k ∈ reals later ∨ k ∈ blanks later → lo ≤ k := by
  induction xs generalizing s with
  | nil => exact ⟨[], by simp, by simp [reals, blanks]⟩
  | cons x xs ih =>
    have hdoes := step_does hdrained (x := x)
    obtain ⟨hring', hplaces⟩ := hdoes.places hring hlo
    have hlo' : lo ≤ (s.step cfg x).pump.captured := hdoes.captured ▸ Nat.le_succ_of_le hlo
    obtain ⟨later, hwritten, hlater⟩ := ih hdoes.drained hring' hlo'
    refine ⟨(s.pump.step cfg x).2 ++ later, ?_, fun k hk => ?_⟩
    · rw [List.foldl_cons, hwritten, ← List.append_assoc]
      rfl
    · rw [reals_append, blanks_append, List.mem_append, List.mem_append] at hk
      rcases hk with (hk | hk) | (hk | hk)
      · exact hplaces k (.inl hk)
      · exact hlater k (.inl hk)
      · exact hplaces k (.inr hk)
      · exact hlater k (.inr hk)

theorem Inv.mem_reals (h : Inv cfg xs s) {j : ℕ} :
    j ∈ reals s.written ↔ Heard cfg.preroll_max s.fates j := by
  rw [h.reals_eq]
  exact mem_replayed_iff

theorem Inv.mem_blanks (h : Inv cfg xs s) {j : ℕ} :
    j ∈ blanks s.written ↔ cfg.client_vad = false ∧ s.fates[j]? = some .withheld := by
  rw [h.silent]
  cases cfg.client_vad <;> simp [mem_places_iff]

theorem Inv.replaced (h : Inv cfg xs s) (hvad : cfg.client_vad = false) {k : ℕ} (hk : xs[k]? = some x)
    (hdrop : drops cfg x = false) (hreal : k ∉ reals s.written) : k ∈ blanks s.written := by
  have hlt : k < s.fates.length := by
    rw [h.length]
    exact lt_length_of_get hk
  have hget : s.fates[k]? = some s.fates[k] := List.getElem?_eq_getElem hlt
  cases hfate : s.fates[k] with
  | dropped => exact absurd ((h.dropped k x hk).1 (hget.trans (congrArg some hfate))) (by simp [hdrop])
  | withheld => exact h.mem_blanks.2 ⟨hvad, hget.trans (congrArg some hfate)⟩
  | live => exact absurd (h.mem_reals.2 (.inl (hget.trans (congrArg some hfate)))) hreal

theorem mic_pump_after_drop (cfg : Config) (xs : List Captured) {m : ℕ}
    (hdropped : (mic_pump cfg xs).fates[m]? = some .dropped) : ∃ later,
    (mic_pump cfg xs).written = (mic_pump cfg (xs.take (m + 1))).written ++ later ∧
      ∀ k, k ∈ reals later ∨ k ∈ blanks later → m < k := by
  have hinv := inv_mic_pump cfg xs
  have hm : m < xs.length := by
    rw [← hinv.length]
    exact lt_length_of_get hdropped
  have hdrop : drops cfg xs[m] = true := (hinv.dropped m _ (List.getElem?_eq_getElem hm)).1 hdropped
  -- the chunk that was dropped left the ring empty
  have htake : mic_pump cfg (xs.take (m + 1)) = (mic_pump cfg (xs.take m)).step cfg xs[m] := by
    rw [List.take_succ_eq_append_getElem hm, mic_pump_concat]
  have hempty : (mic_pump cfg (xs.take (m + 1))).pump.ring = [] := by
    rw [htake]
    simp [Session.step, Pump.step, hdrop]
  have hcut := inv_mic_pump cfg (xs.take (m + 1))
  have hcaptured : (mic_pump cfg (xs.take (m + 1))).pump.captured = m + 1 :=
    hcut.captured.trans (List.length_take_of_le hm)
  have hrest : mic_pump cfg xs =
      (xs.drop (m + 1)).foldl (Session.step cfg) (mic_pump cfg (xs.take (m + 1))) := by
    unfold mic_pump
    rw [← List.foldl_append, List.take_append_drop]
  rw [hrest]
  refine written_later hcut.drained (fun y hy => ?_) (Nat.le_of_eq hcaptured.symm) _
  rw [hempty] at hy
  cases hy

theorem mic_pump_kept (cfg : Config) (xs : List Captured) : Kept cfg xs (mic_pump cfg xs) where
  settled := (inv_mic_pump cfg xs).length
  dropped := (inv_mic_pump cfg xs).dropped
  heard _ := (inv_mic_pump cfg xs).mem_reals
  in_order := by
    rw [(inv_mic_pump cfg xs).reals_eq]
    exact replayed_sorted _ _
  silent _ := (inv_mic_pump cfg xs).mem_blanks
  once := by
    rw [(inv_mic_pump cfg xs).silent]
    split
    · exact .nil
    · exact places_sorted _ _
  replaced hvad _ _ hk hdrop hreal := (inv_mic_pump cfg xs).replaced hvad hk hdrop hreal
  audio := (inv_mic_pump cfg xs).audio
  eos hvad pre post hw := by
    obtain ⟨k, hlive, hheld, hpre, hpost, -⟩ := (inv_mic_pump cfg xs).eos hvad pre post hw
    exact ⟨k, hlive, hheld, hpre, hpost⟩
  after_drop _ hm := mic_pump_after_drop cfg xs hm

/-- For a chunk that is dropped, nothing is written. -/
theorem asleep_unwritten : ¬ ∀ (cfg : Config) (xs : List Captured) (k : ℕ), cfg.client_vad = false →
    cfg.gate_enabled = true → k < xs.length → k ∉ reals (mic_pump cfg xs).written →
      k ∈ blanks (mic_pump cfg xs).written := by
  intro h
  have hasleep := h ⟨100, false, true, 0.08, 0.05, 250, id, false, 250, false, 100, 600, false, false⟩
    [⟨[1, 2], .sleeping, false, false, false, false, 0.5, 1, false, none, .no, none, none⟩] 0 rfl rfl
    Nat.zero_lt_one
  exact absurd (hasleep (by simp [mic_pump, Session.step, Pump.step, drops, reals]))
    (by simp [mic_pump, Session.step, Pump.step, drops, blanks])

end

end LocalVoice.MicPump
