import LocalVoice.Vad.Session
import Mathlib.Data.List.Pairwise
import Mathlib.Tactic.ByContra

/-! `_segment_audio_silero` of `server/core/diarization.py`: the speech spans of a clip, by the events of
    the VAD. An end is found some windows late and `silence_ms` is taken off it again; but the VAD counts
    whole windows of 16 ms, and 18 of them are 12 ms short of the 300 ms that are taken off.

        windows    │ speech │ 1 │ 2 │  …  │ 18 │
        SPEECH_END                            ▲
        the end of the span ▲ 12 ms before the speech ends

    Times are in samples, of which the source makes seconds. -/

namespace LocalVoice.Diarization
open Vad

/-! ### The code -/

/-- A span: where it starts and ends. -/
abbrev Span := ℕ × ℕ

def silence_ms : ℕ := 300

/-- `silence_s`, at 16 samples to the millisecond. -/
def silence : ℕ := silence_ms * 16

/-- `vad`, `spans` and `cur_start`. -/
structure Scan (F S : Type) where
  vad : Session F S
  spans : List Span
  cur_start : Option ℕ

section
variable {F O S P : Type} [LE P] [DecidableLE P] (scale : ℤ → F) (cast : O → F)
  (infer : List F → S → P × S) (threshold : P)

/-- `SileroVADSession(sample_rate=sr, silence_ms=silence_ms)`. -/
def silero : Config (Sample F O) F S := SileroVADSession scale cast infer threshold silence_ms

/-- `samples[i : i + window]`. -/
def window_at (samples : List F) (i : ℕ) : List F := (samples.drop i).take 256

/-- A round of the loop. The end is no earlier than the start also where it is cut off at 0. -/
def round (samples : List F) (i : ℕ) (s : Scan F S) : Scan F S :=
  match (silero scale cast infer threshold).process s.vad ((window_at samples i).map .float32),
    s.cur_start with
  | (vad, some .SPEECH_START), _ => ⟨vad, s.spans, some i⟩
  | (vad, some .SPEECH_END), some cur_start =>
    ⟨vad, s.spans ++ [(cur_start, max cur_start (i + 256 - silence))], none⟩
  | (vad, _), cur_start => ⟨vad, s.spans, cur_start⟩

/-- `while i + window <= n`, one round for each unit of fuel. -/
def loop (samples : List F) : ℕ → ℕ → Scan F S → Scan F S
  | fuel + 1, i, s =>
    if i + 256 ≤ samples.length then loop samples fuel (i + 256) (round scale cast infer threshold samples i s)
    else s
  | 0, _, s => s

/-- Speech still open at the end of the clip is closed there. -/
def Scan.close (s : Scan F S) (n : ℕ) : List Span :=
  match s.cur_start with
  | some cur_start => s.spans ++ [(cur_start, n)]
  | none => s.spans

/-- The spans before the filter. -/
def all_spans (state : S) (samples : List F) : List Span :=
  (loop scale cast infer threshold samples samples.length 0 ⟨fresh F state, [], none⟩).close samples.length

/-- `_segment_audio_silero`: `available` tells whether a session can be made and runs, `long_enough`
    whether a span has `min_segment_ms`. -/
def segment_audio_silero (available : Bool) (long_enough : Span → Bool) (state : S) (samples : List F)
    (sr : ℕ) : Option (List Span) :=
  if sr ≠ 16000 then none
  else if samples = [] then some []
  else if !available then none
  else some ((all_spans scale cast infer threshold state samples).filter long_enough)

/-- What the VAD decides, window by window. -/
def decisions : ℕ → S → List F → List Bool
  | 0, _, _ => []
  | n + 1, state, samples =>
    decide (threshold ≤ (infer (samples.take 256) state).1) ::
      decisions n (infer (samples.take 256) state).2 (samples.drop 256)

end

/-! ### Covering the speech -/

/-- The spans are in order, apart, and inside the clip; every window judged speech lies in one of them; and
    none goes on for `silence_ms` after the last of its windows that is judged speech. -/
structure Covers (n : ℕ) (ds : List Bool) (spans : List Span) : Prop where
  ordered : spans.Pairwise fun a b => a.2 ≤ b.1
  inside : ∀ span ∈ spans, span.1 ≤ span.2 ∧ span.2 ≤ n
  covered : ∀ k, ds[k]? = some true → ∃ span ∈ spans, span.1 ≤ 256 * k ∧ 256 * (k + 1) ≤ span.2
  tail : ∀ span ∈ spans, ∃ k, ds[k]? = some true ∧ span.1 ≤ 256 * k ∧ span.2 < 256 * (k + 1) + silence

/-- The windows of silence that end an utterance. -/
def silence_steps : ℕ := silence_ms / 16

/-- The window is judged speech, and so many that follow are not. -/
def Pause (ds : List Bool) (k : ℕ) : Prop :=
  ds[k]? = some true ∧ ∀ j < silence_steps, ds[k + 1 + j]? = some false

theorem silence_steps_pos : 0 < silence_steps := by decide

theorem judged_snoc {ds : List Bool} {d b : Bool} {k : ℕ} :
    (ds ++ [d])[k]? = some b ↔ ds[k]? = some b ∨ k = ds.length ∧ d = b := by
  rcases Nat.lt_trichotomy k ds.length with hlt | rfl | hgt
  · rw [List.getElem?_append_left hlt]
    exact ⟨.inl, fun h => h.resolve_right fun h => Nat.ne_of_lt hlt h.1⟩
  · rw [List.getElem?_concat_length, List.getElem?_eq_none (Nat.le_refl _)]
    simp
  · rw [List.getElem?_eq_none (by rw [List.length_append]; exact hgt), List.getElem?_eq_none (Nat.le_of_lt hgt)]
    simp [Nat.ne_of_gt hgt]

theorem judged_lt {ds : List Bool} {b : Bool} {k : ℕ} (h : ds[k]? = some b) : k < ds.length :=
  (List.getElem?_eq_some_iff.1 h).1

theorem Pause.snoc {ds : List Bool} {k : ℕ} (h : Pause ds k) (d : Bool) : Pause (ds ++ [d]) k :=
  ⟨judged_snoc.2 (.inl h.1), fun j hj => judged_snoc.2 (.inl (h.2 j hj))⟩

/-- A pause that is not over before the last window ends with it. -/
theorem Pause.of_snoc {ds : List Bool} {d : Bool} {k : ℕ} (h : Pause (ds ++ [d]) k) :
    Pause ds k ∨ d = false ∧ ds[k]? = some true ∧ k + silence_steps = ds.length ∧
      ∀ j, j + 1 < silence_steps → ds[k + 1 + j]? = some false := by
  have hsteps : silence_steps = 18 := rfl
  obtain ⟨hspeech, hsilent⟩ := h
  have hlast := judged_lt (hsilent 17 (by omega))
  rw [List.length_append, List.length_singleton] at hlast
  have hold : ∀ j b, k + j < ds.length → (ds ++ [d])[k + j]? = some b → ds[k + j]? = some b :=
    fun j b hj hb => (judged_snoc.1 hb).resolve_right fun h => Nat.ne_of_lt hj h.1
  have hspeech' := hold 0 true (by omega) hspeech
  by_cases hover : k + 18 = ds.length
  · refine .inr ⟨?_, hspeech', by omega, fun j hj => ?_⟩
    · refine ((judged_snoc.1 (hsilent 17 (by omega))).resolve_left fun h => ?_).2
      have hlt := judged_lt h
      omega
    · have hj' := hold (1 + j) false (by omega) (by rw [← Nat.add_assoc]; exact hsilent j (by omega))
      rwa [← Nat.add_assoc] at hj'
  · refine .inl ⟨hspeech', fun j hj => ?_⟩
    have hj' := hold (1 + j) false (by omega) (by rw [← Nat.add_assoc]; exact hsilent j hj)
    rwa [← Nat.add_assoc] at hj'

/-! ### The loop -/

/-- What holds after the windows that `ds` decides: a closed span ends 192 samples before its last window
    judged speech does, and an open one has lasted to the last window. -/
structure Inv {F S : Type} (ds : List Bool) (s : Scan F S) : Prop where
  leftover : s.vad.leftover = []
  ordered : s.spans.Pairwise fun a b => a.2 ≤ b.1
  closed : ∀ span ∈ s.spans, ∃ k, Pause ds k ∧ span.1 ≤ 256 * k ∧ span.2 + 192 = 256 * (k + 1)
  covered : ∀ k, ds[k]? = some true →
    (∃ span ∈ s.spans, span.1 ≤ 256 * k ∧ 256 * (k + 1) ≤ span.2 + 192) ∨
      ∃ cur_start, s.cur_start = some cur_start ∧ cur_start ≤ 256 * k
  paused : ∀ k, Pause ds k → s.spans ≠ []
  short : s.vad.silence_steps < silence_steps
  idle : s.cur_start = none → s.vad.in_speech = false
  in_speech : ∀ cur_start, s.cur_start = some cur_start → s.vad.in_speech = true ∧
    (∀ span ∈ s.spans, span.2 ≤ cur_start) ∧
    ∃ k, ds[k]? = some true ∧ cur_start ≤ 256 * k ∧ k + 1 + s.vad.silence_steps = ds.length ∧
      ∀ j < s.vad.silence_steps, ds[k + 1 + j]? = some false

section
variable {F S : Type} {ds : List Bool} {s : Scan F S}

/-- What a span closed so far keeps, whatever is decided next. -/
theorem Inv.closed_snoc (h : Inv ds s) (d : Bool) : ∀ span ∈ s.spans, ∃ k, Pause (ds ++ [d]) k ∧
    span.1 ≤ 256 * k ∧ span.2 + 192 = 256 * (k + 1) := by
  intro span hspan
  obtain ⟨k, hpause, hstart, hend⟩ := h.closed span hspan
  exact ⟨k, hpause.snoc d, hstart, hend⟩

/-- A closed span ends before the next window. -/
theorem Inv.closed_le (h : Inv ds s) : ∀ span ∈ s.spans, span.2 ≤ 256 * ds.length := by
  intro span hspan
  obtain ⟨k, hpause, -, hend⟩ := h.closed span hspan
  have hk := judged_lt hpause.1
  omega

/-- The last window judged speech of an open span: none is after it. -/
theorem Inv.last (h : Inv ds s) {cur_start : ℕ} (hcur : s.cur_start = some cur_start) : ∃ last,
    ds[last]? = some true ∧ cur_start ≤ 256 * last ∧ last + 1 + s.vad.silence_steps = ds.length ∧
      (∀ j < s.vad.silence_steps, ds[last + 1 + j]? = some false) ∧ ∀ k, ds[k]? = some true → k ≤ last := by
  obtain ⟨-, -, last, hlast, hstart, hlength, hsilent⟩ := h.in_speech cur_start hcur
  refine ⟨last, hlast, hstart, hlength, hsilent, fun k hk => ?_⟩
  by_contra hlt
  have hk' := judged_lt hk
  have hfalse := hsilent (k - (last + 1)) (by omega)
  rw [show last + 1 + (k - (last + 1)) = k by omega, hk] at hfalse
  cases hfalse

/-- A pause that the next window completes is one of the open span. -/
theorem Inv.paused_snoc (h : Inv ds s) {d : Bool} {k : ℕ} (hpause : Pause (ds ++ [d]) k) : s.spans ≠ [] ∨
    d = false ∧ s.cur_start ≠ none ∧ silence_steps ≤ s.vad.silence_steps + 1 := by
  have hsteps : silence_steps = 18 := rfl
  obtain hold | ⟨hd, hspeech, hlength, hsilent⟩ := hpause.of_snoc
  · exact .inl (h.paused k hold)
  · obtain ⟨span, hspan, -⟩ | ⟨cur_start, hcur, -⟩ := h.covered k hspeech
    · exact .inl (List.ne_nil_of_mem hspan)
    · obtain ⟨last, hlast, -, hlast_length, -, hmax⟩ := h.last hcur
      have hk := hmax k hspeech
      refine .inr ⟨hd, by rw [hcur]; exact Option.some_ne_none _, ?_⟩
      by_contra hshort
      have hfalse := hsilent (last - (k + 1)) (by omega)
      rw [show k + 1 + (last - (k + 1)) = last by omega, hlast] at hfalse
      cases hfalse

/-- An open span comes behind the closed ones, wherever it ends. -/
theorem Inv.ordered_snoc (h : Inv ds s) {cur_start : ℕ} (hcur : s.cur_start = some cur_start) (stop : ℕ) :
    (s.spans ++ [(cur_start, stop)]).Pairwise fun a b => a.2 ≤ b.1 := by
  refine List.pairwise_append.2 ⟨h.ordered, List.pairwise_singleton _ _, fun span hspan new hnew => ?_⟩
  rw [List.mem_singleton.1 hnew]
  exact (h.in_speech cur_start hcur).2.1 span hspan

/-- Speech while a span is open. -/
theorem Inv.speech_on (h : Inv ds s) (state : S) {cur_start : ℕ} (hcur : s.cur_start = some cur_start) :
    @Inv F S (ds ++ [true]) ⟨⟨⟨state, 0, true⟩, []⟩, s.spans, s.cur_start⟩ where
  leftover := rfl
  ordered := h.ordered
  closed := h.closed_snoc true
  covered k hk := by
    obtain hold | ⟨rfl, -⟩ := judged_snoc.1 hk
    · exact h.covered k hold
    · obtain ⟨last, hlast, hstart, -⟩ := h.last hcur
      exact .inr ⟨cur_start, hcur, Nat.le_trans hstart (Nat.mul_le_mul_left _ (Nat.le_of_lt (judged_lt hlast)))⟩
  paused k hpause := (h.paused_snoc hpause).resolve_right fun hend => Bool.noConfusion hend.1
  short := silence_steps_pos
  idle hnone := by
    rw [hnone] at hcur
    cases hcur
  in_speech cur hopen := by
    obtain ⟨-, hbefore, last, hlast, hstart, -⟩ := h.in_speech cur hopen
    have hle : cur ≤ 256 * ds.length :=
      Nat.le_trans hstart (Nat.mul_le_mul_left _ (Nat.le_of_lt (judged_lt hlast)))
    refine ⟨rfl, hbefore, ds.length, judged_snoc.2 (.inr ⟨rfl, rfl⟩), hle, ?_, nofun⟩
    rw [List.length_append]
    rfl

/-- Speech after silence. -/
theorem Inv.speech_start (h : Inv ds s) (state : S) (hcur : s.cur_start = none) :
    @Inv F S (ds ++ [true]) ⟨⟨⟨state, 0, true⟩, []⟩, s.spans, some (256 * ds.length)⟩ where
  leftover := rfl
  ordered := h.ordered
  closed := h.closed_snoc true
  covered k hk := by
    obtain hold | ⟨rfl, -⟩ := judged_snoc.1 hk
    · obtain hspan | ⟨cur, hopen, -⟩ := h.covered k hold
      · exact .inl hspan
      · rw [hcur] at hopen
        cases hopen
    · exact .inr ⟨_, rfl, Nat.le_refl _⟩
  paused k hpause := (h.paused_snoc hpause).resolve_right fun hend => Bool.noConfusion hend.1
  short := silence_steps_pos
  idle := nofun
  in_speech := by
    rintro cur ⟨⟩
    refine ⟨rfl, h.closed_le, ds.length, judged_snoc.2 (.inr ⟨rfl, rfl⟩), Nat.le_refl _, ?_, nofun⟩
    rw [List.length_append]
    rfl

/-- Silence that has not lasted long enough. -/
theorem Inv.silence_on (h : Inv ds s) (state : S) {cur_start : ℕ} (hcur : s.cur_start = some cur_start)
    (hshort : s.vad.silence_steps + 1 < silence_steps) :
    @Inv F S (ds ++ [false]) ⟨⟨⟨state, s.vad.silence_steps + 1, true⟩, []⟩, s.spans, s.cur_start⟩ where
  leftover := rfl
  ordered := h.ordered
  closed := h.closed_snoc false
  covered k hk := h.covered k ((judged_snoc.1 hk).resolve_right fun hend => Bool.noConfusion hend.2)
  paused k hpause := (h.paused_snoc hpause).resolve_right fun hend => Nat.not_lt.2 hend.2.2 hshort
  short := hshort
  idle hnone := by
    rw [hnone] at hcur
    cases hcur
  in_speech cur hopen := by
    obtain ⟨-, hbefore, last, hlast, hstart, hlength, hsilent⟩ := h.in_speech cur hopen
    refine ⟨rfl, hbefore, last, judged_snoc.2 (.inl hlast), hstart, ?_, fun j hj => judged_snoc.2 ?_⟩
    · rw [List.length_append, ← hlength]
      rfl
    · obtain hj | rfl := Nat.lt_succ_iff_lt_or_eq.1 hj
      · exact .inl (hsilent j hj)
      · exact .inr ⟨hlength, rfl⟩

/-- The silence has lasted long enough: the end of the span is in its last window judged speech. -/
theorem Inv.speech_end (h : Inv ds s) (state : S) {cur_start : ℕ} (hcur : s.cur_start = some cur_start)
    (hsteps : s.vad.silence_steps + 1 = silence_steps) :
    @Inv F S (ds ++ [false]) ⟨⟨⟨state, 0, false⟩, []⟩,
      s.spans ++ [(cur_start, max cur_start (256 * ds.length + 256 - silence))], none⟩ := by
  have hthreshold : silence_steps = 18 := rfl
  have htrim : silence = 4800 := rfl
  obtain ⟨last, hlast, hstart, hlength, hsilent, hmax⟩ := h.last hcur
  have hend : max cur_start (256 * ds.length + 256 - silence) + 192 = 256 * (last + 1) := by omega
  have hpause : Pause (ds ++ [false]) last := by
    refine ⟨judged_snoc.2 (.inl hlast), fun j hj => judged_snoc.2 ?_⟩
    obtain hj | rfl := Nat.lt_succ_iff_lt_or_eq.1 (hsteps ▸ hj)
    · exact .inl (hsilent j hj)
    · exact .inr ⟨hlength, rfl⟩
  refine ⟨rfl, h.ordered_snoc hcur _, ?_, ?_, ?_, silence_steps_pos, fun _ => rfl, nofun⟩
  · intro span hspan
    obtain hold | hnew := List.mem_append.1 hspan
    · exact h.closed_snoc false span hold
    · rw [List.mem_singleton.1 hnew]
      exact ⟨last, hpause, hstart, hend⟩
  · intro k hk
    have hold := (judged_snoc.1 hk).resolve_right fun hend => Bool.noConfusion hend.2
    obtain ⟨span, hspan, hin⟩ | ⟨cur, hopen, hle⟩ := h.covered k hold
    · exact .inl ⟨span, List.mem_append_left _ hspan, hin⟩
    · rw [hcur] at hopen
      cases hopen
      have hk := hmax k hold
      exact .inl ⟨_, List.mem_append_right _ (List.mem_singleton_self _), hle, by omega⟩
  · exact fun _ _ => List.append_ne_nil_of_right_ne_nil _ (List.cons_ne_nil _ _)

/-- Silence outside of a span. -/
theorem Inv.idle_on (h : Inv ds s) (state : S) (hcur : s.cur_start = none) :
    @Inv F S (ds ++ [false]) ⟨⟨⟨state, s.vad.silence_steps, false⟩, []⟩, s.spans, s.cur_start⟩ where
  leftover := rfl
  ordered := h.ordered
  closed := h.closed_snoc false
  covered k hk := h.covered k ((judged_snoc.1 hk).resolve_right fun hend => Bool.noConfusion hend.2)
  paused k hpause := (h.paused_snoc hpause).resolve_right fun hend => hend.2.1 hcur
  short := h.short
  idle _ := rfl
  in_speech cur hopen := by
    rw [hcur] at hopen
    cases hopen

end

section
variable {F O S P : Type} [LE P] [DecidableLE P] {scale : ℤ → F} {cast : O → F}
  {infer : List F → S → P × S} {threshold : P}

/-- A round takes one window. -/
theorem round_inv {ds : List Bool} {s : Scan F S} (h : Inv ds s) {samples : List F}
    (hlen : 256 * ds.length + 256 ≤ samples.length) :
    Inv (ds ++ [decide (threshold ≤ (infer (window_at samples (256 * ds.length)) s.vad.state).1)])
        (round scale cast infer threshold samples (256 * ds.length) s) ∧
      (round scale cast infer threshold samples (256 * ds.length) s).vad.state =
        (infer (window_at samples (256 * ds.length)) s.vad.state).2 := by
  have hwindow : (window_at samples (256 * ds.length)).length = 256 := by
    rw [window_at, List.length_take, List.length_drop]
    omega
  have hconvert : ((window_at samples (256 * ds.length)).map .float32).flatMap
      (silero scale cast infer threshold).convert = window_at samples (256 * ds.length) := by
    rw [List.flatMap_map]
    exact List.flatMap_singleton' _
  rw [round, process_window h.leftover (by rw [hconvert]; exact hwindow), hconvert]
  have hspeech : ∀ state window, (silero scale cast infer threshold).speech state window =
    (decide (threshold ≤ (infer window state).1), (infer window state).2) := fun _ _ => rfl
  have hthreshold : (silero scale cast infer threshold).silence_threshold = silence_steps := rfl
  simp only [Config.step, hspeech, hthreshold]
  generalize infer (window_at samples (256 * ds.length)) s.vad.state = out
  cases hdecide : decide (threshold ≤ out.1) with
  | true =>
    cases hcur : s.cur_start with
    | none =>
      simp only [h.idle hcur]
      exact ⟨h.speech_start out.2 hcur, rfl⟩
    | some cur_start =>
      simp only [(h.in_speech cur_start hcur).1]
      exact ⟨hcur ▸ h.speech_on out.2 hcur, rfl⟩
  | false =>
    cases hcur : s.cur_start with
    | none =>
      simp only [h.idle hcur]
      exact ⟨hcur ▸ h.idle_on out.2 hcur, rfl⟩
    | some cur_start =>
      simp only [(h.in_speech cur_start hcur).1]
      by_cases hover : silence_steps ≤ s.vad.silence_steps + 1
      · simp only [hover]
        exact ⟨h.speech_end out.2 hcur (Nat.le_antisymm h.short hover), rfl⟩
      · simp only [hover]
        exact ⟨hcur ▸ h.silence_on out.2 hcur (Nat.lt_of_not_le hover), rfl⟩

/-- The loop takes the windows that are left. -/
theorem loop_inv {samples : List F} {n fuel : ℕ} {ds : List Bool} {s : Scan F S} (h : Inv ds s)
    (hfuel : n ≤ fuel) (hlen : 256 * (ds.length + n) ≤ samples.length)
    (hend : samples.length < 256 * (ds.length + n + 1)) :
    Inv (ds ++ decisions infer threshold n s.vad.state (samples.drop (256 * ds.length)))
      (loop scale cast infer threshold samples fuel (256 * ds.length) s) := by
  induction n generalizing fuel ds s with
  | zero =>
    rw [decisions, List.append_nil]
    cases fuel with
    | zero => exact h
    | succ fuel =>
      rw [loop, if_neg (by omega)]
      exact h
  | succ n ih =>
    cases fuel with
    | zero => exact absurd hfuel (Nat.not_succ_le_zero n)
    | succ fuel =>
      have hwindow : 256 * ds.length + 256 ≤ samples.length := by omega
      obtain ⟨hround, hstate⟩ := @round_inv _ O _ _ _ _ scale cast infer threshold _ _ h _ hwindow
      have hlength : ∀ d : Bool, (ds ++ [d]).length = ds.length + 1 := fun d => List.length_append
      have hnext := ih hround (Nat.le_of_succ_le_succ hfuel) (by rw [hlength]; omega) (by rw [hlength]; omega)
      rw [loop, if_pos hwindow, decisions, List.drop_drop]
      rw [hlength, hstate, List.append_assoc, Nat.mul_succ] at hnext
      exact hnext

theorem inv_init (state : S) : Inv [] (⟨fresh F state, [], none⟩ : Scan F S) where
  leftover := rfl
  ordered := .nil
  closed := nofun
  covered := nofun
  paused _ hpause := nomatch hpause.1
  short := silence_steps_pos
  idle _ := rfl
  in_speech := nofun

/-- The number of windows in a clip. -/
theorem length_decisions (n : ℕ) (state : S) (samples : List F) :
    (decisions infer threshold n state samples).length = n := by
  induction n generalizing state samples with
  | zero => rfl
  | succ n ih => rw [decisions, List.length_cons, ih]

end

section
variable {F S : Type} {ds : List Bool} {s : Scan F S} {n : ℕ}

theorem mem_close {span : Span} : span ∈ s.close n ↔
    span ∈ s.spans ∨ ∃ cur_start, s.cur_start = some cur_start ∧ span = (cur_start, n) := by
  cases hcur : s.cur_start <;> simp [Scan.close, hcur]

theorem Inv.close_ordered (h : Inv ds s) : (s.close n).Pairwise fun a b => a.2 ≤ b.1 := by
  rw [Scan.close]
  split
  · next hcur => exact h.ordered_snoc hcur n
  · exact h.ordered

theorem Inv.close_inside (h : Inv ds s) (hlen : 256 * ds.length ≤ n) :
    ∀ span ∈ s.close n, span.1 ≤ span.2 ∧ span.2 ≤ n := by
  intro span hspan
  obtain hclosed | ⟨cur_start, hcur, rfl⟩ := mem_close.1 hspan
  · obtain ⟨k, -, hstart, hend⟩ := h.closed span hclosed
    have hle := h.closed_le span hclosed
    omega
  · obtain ⟨last, hlast, hstart, -⟩ := h.last hcur
    have hlt := judged_lt hlast
    exact ⟨by show cur_start ≤ n; omega, Nat.le_refl n⟩

theorem Inv.close_tail (h : Inv ds s) (hend : n < 256 * (ds.length + 1)) : ∀ span ∈ s.close n, ∃ k,
    ds[k]? = some true ∧ span.1 ≤ 256 * k ∧ span.2 < 256 * (k + 1) + silence := by
  have htrim : silence = 4800 := rfl
  have hsteps : silence_steps = 18 := rfl
  intro span hspan
  obtain hclosed | ⟨cur_start, hcur, rfl⟩ := mem_close.1 hspan
  · obtain ⟨k, hpause, hstart, hend⟩ := h.closed span hclosed
    exact ⟨k, hpause.1, hstart, by omega⟩
  · obtain ⟨last, hlast, hstart, hlength, -⟩ := h.last hcur
    have hshort := h.short
    exact ⟨last, hlast, hstart, by show n < _; omega⟩

/-- The last window judged speech of a closed span sticks out of it, and lies in no other. -/
theorem Inv.covers_iff (h : Inv ds s) (hlen : 256 * ds.length ≤ n) (hend : n < 256 * (ds.length + 1)) :
    Covers n ds (s.close n) ↔ s.spans = [] := by
  constructor
  · intro hcovers
    by_contra hne
    obtain ⟨closed, hclosed⟩ := List.exists_mem_of_ne_nil _ hne
    obtain ⟨k, hpause, hstart, hend⟩ := h.closed closed hclosed
    obtain ⟨span, hspan, hbegins, hreaches⟩ := hcovers.covered k hpause.1
    have happart : span ≠ closed → span.2 ≤ closed.1 ∨ closed.2 ≤ span.1 := by
      have hsymm : Std.Symm fun a b : Span => a.2 ≤ b.1 ∨ b.2 ≤ a.1 := ⟨fun _ _ => Or.symm⟩
      exact (hcovers.ordered.imp (S := fun a b => a.2 ≤ b.1 ∨ b.2 ≤ a.1) Or.inl).forall hspan
        (mem_close.2 (.inl hclosed))
    by_cases hsame : span = closed
    · rw [hsame] at hreaches
      omega
    · have hor := happart hsame
      omega
  · intro hnone
    refine ⟨h.close_ordered, h.close_inside hlen, fun k hk => ?_, h.close_tail hend⟩
    obtain ⟨span, hspan, -⟩ | ⟨cur_start, hcur, hle⟩ := h.covered k hk
    · rw [hnone] at hspan
      exact absurd hspan List.not_mem_nil
    · have hlt := judged_lt hk
      exact ⟨_, mem_close.2 (.inr ⟨cur_start, hcur, rfl⟩), hle, by show _ ≤ n; omega⟩

/-- A span has been closed exactly when there was a pause. -/
theorem Inv.closed_iff (h : Inv ds s) : s.spans = [] ↔ ¬ ∃ k, Pause ds k := by
  constructor
  · rintro hnone ⟨k, hpause⟩
    exact h.paused k hpause hnone
  · intro hnever
    by_contra hne
    obtain ⟨span, hspan⟩ := List.exists_mem_of_ne_nil _ hne
    obtain ⟨k, hpause, -⟩ := h.closed span hspan
    exact hnever ⟨k, hpause⟩

end

/-! ### The clip -/

section
variable {F O S P : Type} [LE P] [DecidableLE P] (scale : ℤ → F) (cast : O → F)
  (infer : List F → S → P × S) (threshold : P)

/-- All windows of the clip were taken, and what is left of it is no window. -/
theorem clip_inv (state : S) (samples : List F) :
    Inv (decisions infer threshold (samples.length / 256) state samples)
      (loop scale cast infer threshold samples samples.length 0 ⟨fresh F state, [], none⟩) := by
  have hwindows := Nat.div_add_mod samples.length 256
  have hrest := Nat.mod_lt samples.length (show 0 < 256 by decide)
  exact loop_inv (inv_init state) (Nat.div_le_self _ _) (by rw [List.length_nil]; omega)
    (by rw [List.length_nil]; omega)

/-- An utterance that is closed is not covered. -/
theorem covers_never_closed (state : S) (samples : List F) :
    Covers samples.length (decisions infer threshold (samples.length / 256) state samples)
        (all_spans scale cast infer threshold state samples) ↔
      (loop scale cast infer threshold samples samples.length 0 ⟨fresh F state, [], none⟩).spans = [] := by
  have hwindows := Nat.div_add_mod samples.length 256
  have hrest := Nat.mod_lt samples.length (show 0 < 256 by decide)
  have hlength := @length_decisions F S P _ _ infer threshold (samples.length / 256) state samples
  exact (clip_inv scale cast infer threshold state samples).covers_iff (by rw [hlength]; omega)
    (by rw [hlength]; omega)

/-- The spans cover the speech of a clip exactly when none of its windows judged speech is followed by 18
    that are not. -/
theorem spans_cover (state : S) (samples : List F) :
    Covers samples.length (decisions infer threshold (samples.length / 256) state samples)
        (all_spans scale cast infer threshold state samples) ↔
      ¬ ∃ k, Pause (decisions infer threshold (samples.length / 256) state samples) k :=
  (covers_never_closed scale cast infer threshold state samples).trans
    (clip_inv scale cast infer threshold state samples).closed_iff

/-- Whatever is decided, the spans that are returned are in order, apart, and inside the clip. -/
theorem segment_ordered {available : Bool} {long_enough : Span → Bool} {state : S} {samples : List F} {sr : ℕ}
    {spans : List Span}
    (h : segment_audio_silero scale cast infer threshold available long_enough state samples sr = some spans) :
    (spans.Pairwise fun a b => a.2 ≤ b.1) ∧ ∀ span ∈ spans, span.1 ≤ span.2 ∧ span.2 ≤ samples.length := by
  unfold segment_audio_silero at h
  split at h
  · cases h
  · split at h
    · cases h
      exact ⟨.nil, fun _ hspan => absurd hspan List.not_mem_nil⟩
    · split at h
      · cases h
      · cases h
        have hinv := clip_inv scale cast infer threshold state samples
        have hdiv := Nat.mul_div_le samples.length 256
        refine ⟨hinv.close_ordered.filter _, fun span hspan => ?_⟩
        exact hinv.close_inside (by rw [length_decisions]; exact hdiv) span (List.mem_of_mem_filter hspan)

end

/-- A model that finds speech in a window that begins with a loud sample. -/
def loudness (window : List ℕ) (state : Unit) : ℕ × Unit := (window.headD 0, state)

/-- One window of speech and 18 of silence. -/
def pause_clip : List ℕ := List.replicate 256 1 ++ List.replicate 4608 0

theorem segment_ordered_pause_clip : ∃ spans, segment_audio_silero (fun _ => 0) Empty.elim loudness 1 true
    (fun _ => true) () pause_clip 16000 = some spans ∧ spans.Pairwise fun a b => a.2 ≤ b.1 :=
  ⟨_, rfl, (@segment_ordered _ Empty _ _ _ _ (fun _ => 0) _ loudness 1 true _ () pause_clip 16000 _ rfl).1⟩

/-- The end of the span is cut off the speech. -/
theorem speech_cut : ¬ ∀ samples : List ℕ,
    Covers samples.length (decisions loudness 1 (samples.length / 256) () samples)
      (all_spans (fun _ => 0) Empty.elim loudness 1 () samples) := by
  intro hall
  have hpause : Pause (decisions loudness 1 (pause_clip.length / 256) () pause_clip) 0 := by
    unfold Pause
    decide +kernel
  have hclosed := (covers_never_closed (fun _ => 0) Empty.elim loudness 1 () pause_clip).1 (hall pause_clip)
  exact (clip_inv (fun _ => 0) Empty.elim loudness 1 () pause_clip).closed_iff.1 hclosed ⟨0, hpause⟩

end LocalVoice.Diarization
