import Mathlib.Data.List.ReduceOption
import Mathlib.Data.Int.Notation
import Mathlib.Data.Nat.Notation

/-! The voice activity sessions of `server/core/vad.py`. A chunk of samples is put behind what the last
    one left over, and is decided window by window; a transition between silence and speech is an
    event, but a call returns one event at most, the last one. So what is left after a stream, and
    the transitions on the way, do not depend on how the stream is cut, and the events do not as long
    as no call crosses twice. -/

namespace LocalVoice.Vad

/-- `VADSession.SPEECH_START`, `VADSession.SPEECH_END`. -/
inductive VadEvent where
  | SPEECH_START
  | SPEECH_END
  deriving DecidableEq

/-- What the two sessions differ in: what a sample is converted to, how long a window is, how many
    windows of silence end an utterance, and how a window is decided (which may change a state of the
    model). -/
structure Config (ι α σ : Type) where
  convert : ι → List α
  window : ℕ
  window_pos : 0 < window
  silence_threshold : ℕ
  speech : σ → List α → Bool × σ

/-- `_state`, `_silence_steps` (`_silence_count`) and `_in_speech`. -/
structure Detector (σ : Type) where
  state : σ
  silence_steps : ℕ
  in_speech : Bool

structure Session (α σ : Type) extends Detector σ where
  leftover : List α

namespace Config
variable {ι α σ : Type} (c : Config ι α σ)

/-- One window: its decision, and the event if it is a transition. -/
def step (d : Detector σ) (window : List α) : Detector σ × Option VadEvent :=
  let (speech, new_state) := c.speech d.state window
  if speech then
    (⟨new_state, 0, true⟩, if d.in_speech then none else some .SPEECH_START)
  else if d.in_speech then
    if c.silence_threshold ≤ d.silence_steps + 1 then (⟨new_state, 0, false⟩, some .SPEECH_END)
    else (⟨new_state, d.silence_steps + 1, true⟩, none)
  else ({ d with state := new_state }, none)

/-- `while i + window <= len(buf)`, one round for each unit of fuel; the last event wins. -/
def loop : ℕ → List α → Detector σ → Option VadEvent → Session α σ × Option VadEvent
  | n + 1, buf, d, event =>
    if c.window ≤ buf.length then
      loop n (buf.drop c.window) (c.step d (buf.take c.window)).1
        ((c.step d (buf.take c.window)).2.or event)
    else (⟨d, buf⟩, event)
  | 0, buf, d, event => (⟨d, buf⟩, event)

/-- `process`. -/
def process (s : Session α σ) (samples : List ι) : Session α σ × Option VadEvent :=
  let buf := s.leftover ++ samples.flatMap c.convert
  c.loop buf.length buf s.toDetector none

/-- The session after a list of chunks. -/
def run (s : Session α σ) (chunks : List (List ι)) : Session α σ :=
  chunks.foldl (fun s chunk => (c.process s chunk).1) s

/-- What the calls return, one after the other. -/
def results : Session α σ → List (List ι) → List (Option VadEvent)
  | _, [] => []
  | s, chunk :: chunks => (c.process s chunk).2 :: results (c.process s chunk).1 chunks

/-- All transitions in a buffer, the detector after it and what is left over. -/
def walk (buf : List α) (d : Detector σ) : List VadEvent × Session α σ :=
  if c.window ≤ buf.length then
    let rest := walk (buf.drop c.window) (c.step d (buf.take c.window)).1
    ((c.step d (buf.take c.window)).2.toList ++ rest.1, rest.2)
  else ([], ⟨d, buf⟩)
termination_by buf.length
decreasing_by
  have := c.window_pos
  rw [List.length_drop]
  omega

/-- The transitions of a call. -/
def transitions (s : Session α σ) (samples : List ι) : List VadEvent :=
  (c.walk (s.leftover ++ samples.flatMap c.convert) s.toDetector).1

/-- The transitions of the calls, one after the other. -/
def traces : Session α σ → List (List ι) → List (List VadEvent)
  | _, [] => []
  | s, chunk :: chunks => c.transitions s chunk :: traces (c.process s chunk).1 chunks

end Config

/-! ### The two sessions -/

/-- A sample of an array, by the type of the array. -/
inductive Sample (F O : Type) where
  | int16 (n : ℤ)
  | float32 (x : F)
  | other (y : O)

section
variable {F O S P : Type}

/-- `SileroVADSession`: `scale` is the division of a 16-bit sample by 32768, `cast` the cast of another
    array, `infer` the run of the model on a window with its state. -/
def SileroVADSession [LE P] [DecidableLE P] (scale : ℤ → F) (cast : O → F)
    (infer : List F → S → P × S) (threshold : P) (silence_ms : ℤ) : Config (Sample F O) F S where
  convert
    | .int16 n => [scale n]
    | .float32 x => [x]
    | .other y => [cast y]
  window := 256
  window_pos := by decide
  silence_threshold := (max 1 (silence_ms.tdiv 16)).toNat
  speech state window := (threshold ≤ (infer window state).1, (infer window state).2)

/-- The bytes of a 16-bit sample. -/
def tobytes (n : ℤ) : List UInt8 :=
  [UInt8.ofNat (n % 65536).toNat, UInt8.ofNat ((n % 65536).toNat / 256)]

/-- `WebRTCVADSession`: `clip` brings a float sample to 16 bits, `cast` another one; `frame_bytes` is
    `int(sample_rate * (FRAME_MS / 1000) * 2)`. -/
def WebRTCVADSession (clip : F → ℤ) (cast : O → ℤ) (is_speech : List UInt8 → Bool)
    (frame_bytes : ℕ) (hframe : 0 < frame_bytes) (silence_ms : ℤ) :
    Config (Sample F O) UInt8 Unit where
  convert
    | .int16 n => tobytes n
    | .float32 x => tobytes (clip x)
    | .other y => tobytes (cast y)
  window := frame_bytes
  window_pos := hframe
  silence_threshold := (max 1 (silence_ms.fdiv 30)).toNat
  speech _ frame := (is_speech frame, ())

/-- A session as it is made, or reset. -/
def fresh (α : Type) {σ : Type} (state : σ) : Session α σ := ⟨⟨state, 0, false⟩, []⟩

end

/-! ### One call, and one call after the other -/

/-- The events take turns, beginning with the given one. -/
def Alternates : VadEvent → List VadEvent → Prop
  | _, [] => True
  | .SPEECH_START, e :: es => e = .SPEECH_START ∧ Alternates .SPEECH_END es
  | .SPEECH_END, e :: es => e = .SPEECH_END ∧ Alternates .SPEECH_START es

/-- The event that comes next. -/
def Detector.next {σ : Type} (d : Detector σ) : VadEvent :=
  if d.in_speech then .SPEECH_END else .SPEECH_START

section
variable {ι α σ : Type} {c : Config ι α σ} {d : Detector σ} {s : Session α σ} {buf more : List α}
  {chunks : List (List ι)}

theorem walk_short (h : buf.length < c.window) : c.walk buf d = ([], ⟨d, buf⟩) := by
  rw [Config.walk, if_neg (Nat.not_le.2 h)]

theorem walk_window (h : c.window ≤ buf.length) : c.walk buf d =
    ((c.step d (buf.take c.window)).2.toList ++
      (c.walk (buf.drop c.window) (c.step d (buf.take c.window)).1).1,
        (c.walk (buf.drop c.window) (c.step d (buf.take c.window)).1).2) := by
  rw [Config.walk, if_pos h]

/-- The loop keeps the last transition. -/
theorem loop_walk : ∀ {n : ℕ} {buf : List α} {d : Detector σ} {event : Option VadEvent},
    buf.length ≤ n →
      c.loop n buf d event = ((c.walk buf d).2, (c.walk buf d).1.getLast?.or event)
  | 0, buf, d, event, hn => by
    have hshort : buf.length < c.window := Nat.lt_of_le_of_lt hn c.window_pos
    rw [Config.loop, walk_short hshort]
    rfl
  | n + 1, buf, d, event, hn => by
    rw [Config.loop]
    split
    · next h =>
      have hdrop : (buf.drop c.window).length ≤ n := by
        have hpos := c.window_pos
        rw [List.length_drop]
        omega
      rw [loop_walk hdrop, walk_window h, List.getLast?_append, Option.or_assoc]
      cases (c.step d (buf.take c.window)).2 <;> rfl
    · next h =>
      rw [walk_short (Nat.lt_of_not_le h)]
      rfl

theorem process_walk (samples : List ι) : c.process s samples =
    ((c.walk (s.leftover ++ samples.flatMap c.convert) s.toDetector).2,
      (c.transitions s samples).getLast?) := by
  rw [Config.process, loop_walk (Nat.le_refl _), Option.or_none]
  rfl

/-- A call with one window, and nothing left over before it, is one step. -/
theorem process_window {samples : List ι} (hs : s.leftover = [])
    (hwindow : (samples.flatMap c.convert).length = c.window) : c.process s samples =
      (⟨(c.step s.toDetector (samples.flatMap c.convert)).1, []⟩,
        (c.step s.toDetector (samples.flatMap c.convert)).2) := by
  have hnone : ∀ d : Detector σ, c.walk [] d = ([], ⟨d, []⟩) := fun d => walk_short c.window_pos
  rw [process_walk, Config.transitions, hs, List.nil_append, walk_window (Nat.le_of_eq hwindow.symm),
    List.take_of_length_le (Nat.le_of_eq hwindow), List.drop_of_length_le (Nat.le_of_eq hwindow), hnone]
  cases (c.step s.toDetector (samples.flatMap c.convert)).2 <;> rfl

/-- A buffer in two parts: what the first leaves over is put in front of the second. -/
theorem walk_append (buf more : List α) (d : Detector σ) : c.walk (buf ++ more) d =
    ((c.walk buf d).1 ++
      (c.walk ((c.walk buf d).2.leftover ++ more) (c.walk buf d).2.toDetector).1,
        (c.walk ((c.walk buf d).2.leftover ++ more) (c.walk buf d).2.toDetector).2) := by
  induction buf, d using Config.walk.induct (c := c) with
  | case1 buf d h ih =>
    have happend : c.window ≤ (buf ++ more).length := by
      rw [List.length_append]
      omega
    rw [walk_window happend, List.take_append_of_le_length h, List.drop_append_of_le_length h, ih,
      walk_window h, List.append_assoc]
  | case2 buf d h =>
    rw [walk_short (Nat.lt_of_not_le h)]
    rfl

/-- Chunks leave behind, and go through, what one call with all of them does. -/
theorem run_walk : ∀ (chunks : List (List ι)) (s : Session α σ), s.leftover.length < c.window →
    c.walk (s.leftover ++ chunks.flatten.flatMap c.convert) s.toDetector =
      ((c.traces s chunks).flatten, c.run s chunks)
  | [], s, hs => by
    rw [List.flatten_nil, List.flatMap_nil, List.append_nil, walk_short hs]
    rfl
  | chunk :: chunks, s, _ => by
    have hrest : ∀ (buf : List α) (d : Detector σ),
        (c.walk buf d).2.leftover.length < c.window := by
      intro buf d
      induction buf, d using Config.walk.induct (c := c) with
      | case1 buf d h ih =>
        rw [walk_window h]
        exact ih
      | case2 buf d h =>
        rw [walk_short (Nat.lt_of_not_le h)]
        exact Nat.lt_of_not_le h
    have hnext := run_walk chunks (c.process s chunk).1 (by
      rw [process_walk]
      exact hrest _ _)
    rw [List.flatten_cons, List.flatMap_append, ← List.append_assoc, walk_append]
    rw [process_walk] at hnext
    rw [hnext, Config.traces, List.flatten_cons, process_walk]
    refine Prod.ext rfl ?_
    rw [Config.run, Config.run, List.foldl_cons, process_walk]

theorem step_next (d : Detector σ) (window : List α) (es : List VadEvent)
    (h : Alternates (c.step d window).1.next es) :
    Alternates d.next ((c.step d window).2.toList ++ es) := by
  obtain ⟨state, silence_steps, in_speech⟩ := d
  revert h
  simp only [Config.step]
  cases hspeech : (c.speech state window).1 with
  | true =>
    cases in_speech
    · exact fun h => ⟨rfl, h⟩
    · exact id
  | false =>
    cases in_speech
    · exact id
    · by_cases hover : c.silence_threshold ≤ silence_steps + 1
      · simp only [hover, if_true, Bool.false_eq_true, if_false]
        exact fun h => ⟨rfl, h⟩
      · simp only [hover, if_true, Bool.false_eq_true, if_false]
        exact id

theorem walk_alternates (buf : List α) (d : Detector σ) : Alternates d.next (c.walk buf d).1 := by
  induction buf, d using Config.walk.induct (c := c) with
  | case1 buf d h ih =>
    rw [walk_window h]
    exact step_next d _ _ ih
  | case2 buf d h =>
    rw [walk_short (Nat.lt_of_not_le h)]
    cases d.next <;> trivial

theorem results_traces : ∀ (chunks : List (List ι)) (s : Session α σ),
    c.results s chunks = (c.traces s chunks).map List.getLast?
  | [], _ => rfl
  | chunk :: chunks, s => by
    rw [Config.results, results_traces chunks, Config.traces, List.map_cons]
    congr 1
    rw [process_walk]

/-! ### Any cutting -/

theorem last_length (ts : List (List VadEvent)) :
    (ts.map List.getLast?).reduceOption.length ≤ ts.flatten.length := by
  induction ts with
  | nil => exact Nat.le_refl _
  | cons t ts ih =>
    rw [List.map_cons, List.flatten_cons, List.length_append]
    cases ht : t.getLast? with
    | none =>
      rw [List.reduceOption_cons_of_none]
      omega
    | some e =>
      have hpos : 0 < t.length := List.length_pos_of_ne_nil fun hnil => by
        rw [hnil] at ht
        cases ht
      rw [List.reduceOption_cons_of_some, List.length_cons]
      omega

/-- The last of each group is all there is if no group has more than one. -/
theorem last_all (ts : List (List VadEvent)) :
    (ts.map List.getLast?).reduceOption = ts.flatten ↔ ∀ t ∈ ts, t.length ≤ 1 := by
  induction ts with
  | nil => exact ⟨fun _ => nofun, fun _ => rfl⟩
  | cons t ts ih =>
    rw [List.map_cons, List.flatten_cons, List.forall_mem_cons, ← ih]
    match t with
    | [] =>
      rw [List.getLast?_nil, List.reduceOption_cons_of_none, List.nil_append]
      exact ⟨fun h => ⟨Nat.zero_le _, h⟩, And.right⟩
    | [e] =>
      rw [List.getLast?_singleton, List.reduceOption_cons_of_some, List.singleton_append,
        List.cons_inj_right]
      exact ⟨fun h => ⟨Nat.le_refl _, h⟩, And.right⟩
    | e :: e' :: es =>
      constructor
      · intro h
        obtain ⟨last, hlast⟩ : ∃ last, (e :: e' :: es).getLast? = some last :=
          ⟨_, List.getLast?_eq_some_getLast (by simp)⟩
        have hlength := congrArg List.length h
        have hle := last_length ts
        rw [hlast, List.reduceOption_cons_of_some, List.length_cons, List.length_append,
          List.length_cons, List.length_cons] at hlength
        omega
      · rintro ⟨hlength, -⟩
        simp at hlength

/-- What does not depend on how a stream is cut into chunks, and what does: a call returns the last of
    its transitions, so the calls return all of them if none crosses twice. -/
structure CutFree (c : Config ι α σ) (s : Session α σ) : Prop where
  same_state : ∀ cs ds : List (List ι), cs.flatten = ds.flatten → c.run s cs = c.run s ds
  same_transitions : ∀ cs ds : List (List ι), cs.flatten = ds.flatten →
    (c.traces s cs).flatten = (c.traces s ds).flatten
  alternates : ∀ cs : List (List ι), Alternates .SPEECH_START (c.traces s cs).flatten
  returned : ∀ cs : List (List ι), c.results s cs = (c.traces s cs).map List.getLast?
  all_returned : ∀ cs : List (List ι),
    (c.results s cs).reduceOption = (c.traces s cs).flatten ↔ ∀ t ∈ c.traces s cs, t.length ≤ 1

end

/-- A session of either kind, from the moment it is made or reset. -/
theorem cut_free {ι α σ : Type} (c : Config ι α σ) (state : σ) : CutFree c (fresh α state) := by
  have hwalk := fun cs : List (List ι) => run_walk (c := c) cs (fresh α state) c.window_pos
  have hsame : ∀ {cs ds : List (List ι)}, cs.flatten = ds.flatten →
      ((c.traces (fresh α state) cs).flatten, c.run (fresh α state) cs) =
        ((c.traces (fresh α state) ds).flatten, c.run (fresh α state) ds) := fun {cs ds} h => by
    rw [← hwalk cs, ← hwalk ds, h]
  refine ⟨fun cs ds h => (Prod.ext_iff.1 (hsame h)).2, fun cs ds h => (Prod.ext_iff.1 (hsame h)).1,
    fun cs => ?_, fun cs => results_traces cs _, fun cs => ?_⟩
  · have halternates := walk_alternates (c := c)
      ((fresh α state).leftover ++ cs.flatten.flatMap c.convert) (fresh α state).toDetector
    rw [hwalk cs] at halternates
    exact halternates
  · rw [results_traces]
    exact last_all _

/-! ### A chunk with two transitions -/

namespace Sample

/-- A session whose model finds speech in a window that begins with a loud sample. -/
def silero : Config (Sample ℤ Empty) ℤ Unit :=
  SileroVADSession id Empty.elim (fun window state => (window.headD 0, state)) (1 : ℤ) 16

/-- One window of speech, and one of silence. -/
def loud : List (Sample ℤ Empty) := List.replicate 256 (.float32 1)
def quiet : List (Sample ℤ Empty) := List.replicate 256 (.float32 0)

end Sample

/-- In one chunk the beginning of the speech is lost, in two it is not. -/
theorem start_lost : ¬ ∀ cs ds : List (List (Sample ℤ Empty)), cs.flatten = ds.flatten →
    (Sample.silero.results (fresh ℤ ()) cs).reduceOption =
        (Sample.silero.results (fresh ℤ ()) ds).reduceOption ∧
      Alternates .SPEECH_START (Sample.silero.results (fresh ℤ ()) cs).reduceOption := by
  intro h
  have hcut := h [Sample.loud ++ Sample.quiet] [Sample.loud, Sample.quiet]
    (List.append_assoc Sample.loud Sample.quiet [])
  have hone : (Sample.silero.results (fresh ℤ ()) [Sample.loud ++ Sample.quiet]).reduceOption =
      [.SPEECH_END] := by decide +kernel
  rw [hone] at hcut
  exact absurd hcut.2.1 (by decide)

end LocalVoice.Vad
