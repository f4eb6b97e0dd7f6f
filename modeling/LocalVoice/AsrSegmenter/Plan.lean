import Mathlib.Algebra.Order.Round
import LocalVoice.AsrSegmenter.Bounds

/-! The clip, its slices, the speech regions a VAD session finds in it and `plan_segments`. The
    session is a parameter: any state machine that answers each window with a transition or none
    and may raise. -/

namespace LocalVoice.AsrSegmenter

/-- A WAV container as `wave` reads and writes it. -/
structure Wav where
  framerate : ℕ
  nchannels : ℕ
  sampwidth : ℕ
  nframes : ℕ
  data : List UInt8
  deriving DecidableEq

/-- `WavClip`; `probe_wav` only builds clips with a positive rate. -/
structure WavClip where
  sample_rate : ℕ
  channels : ℕ
  sampwidth : ℕ
  n_frames : ℕ
  frames : List UInt8
  rate_pos : 0 < sample_rate

namespace WavClip

/-- `duration`. -/
def duration (c : WavClip) : ℚ := (c.n_frames : ℚ) / c.sample_rate

end WavClip

/-- `probe_wav`, on what `wave.open` makes of the bytes. -/
def probe_wav : Option Wav → Option WavClip
  | none => none
  | some w =>
    if h : w.framerate = 0 then none
    else if w.nframes = 0 ∨ w.data = [] then none
    else some ⟨w.framerate, if w.nchannels = 0 then 1 else w.nchannels,
      if w.sampwidth = 0 then 2 else w.sampwidth, w.nframes, w.data, Nat.pos_of_ne_zero h⟩

/-- `round`: to the nearest integer, a tie to the even one. -/
def round_half_even (q : ℚ) : ℤ :=
  let f := ⌊q⌋
  if q - f < 1 / 2 then f
  else if 1 / 2 < q - f then f + 1
  else if f % 2 = 0 then f else f + 1

theorem round_half_even_le (q : ℚ) : (round_half_even q : ℚ) ≤ q + 1 / 2 := by
  have h := Int.floor_le q
  unfold round_half_even
  dsimp only
  split_ifs with h1 h2 h3 <;> push_cast <;> linarith

theorem le_round_half_even (q : ℚ) : q - 1 / 2 ≤ (round_half_even q : ℚ) := by
  have h := Int.lt_floor_add_one q
  unfold round_half_even
  dsimp only
  split_ifs with h1 h2 h3 <;> push_cast <;> linarith

/-- `slice_wav`: the frames `[i0, i1)` as a container of their own. -/
def WavClip.slice_wav (c : WavClip) (b : Bound) : Wav :=
  let bytes_per_frame := c.channels * c.sampwidth
  let i0 := (round_half_even (b.1 * c.sample_rate)).toNat
  let i1 := min (c.n_frames : ℤ) (round_half_even (b.2 * c.sample_rate))
  let i1 := if i1 ≤ i0 then min c.n_frames (i0 + 1) else i1.toNat
  let payload := (c.frames.take (i1 * bytes_per_frame)).drop (i0 * bytes_per_frame)
  ⟨c.sample_rate, c.channels, c.sampwidth, payload.length / bytes_per_frame, payload⟩

/-- A slice has at most the frames of its bound and one more. -/
theorem WavClip.slice_nframes_le (c : WavClip) {b : Bound} {max_segment : ℚ}
    (hM : 0 ≤ max_segment) (h : Fits max_segment b) :
    ((c.slice_wav b).nframes : ℚ) ≤ max_segment * c.sample_rate + 1 := by
  set i0 := (round_half_even (b.1 * c.sample_rate)).toNat with hi0
  set i1 := min (c.n_frames : ℤ) (round_half_even (b.2 * c.sample_rate)) with hi1
  have hrate : (0 : ℚ) < c.sample_rate := by exact_mod_cast c.rate_pos
  -- the distance of the two rounded frame numbers
  have hdist : ((i1 : ℚ) - i0) ≤ max_segment * c.sample_rate + 1 := by
    have h1 : (i1 : ℚ) ≤ b.2 * c.sample_rate + 1 / 2 :=
      le_trans (by exact_mod_cast min_le_right _ _) (round_half_even_le _)
    have h0 : b.1 * c.sample_rate - 1 / 2 ≤ (i0 : ℚ) :=
      (le_round_half_even _).trans (by exact_mod_cast Int.self_le_toNat _)
    have hspan : (b.2 - b.1) * c.sample_rate ≤ max_segment * c.sample_rate :=
      mul_le_mul_of_nonneg_right h hrate.le
    linarith
  have hframes : ∀ j : ℕ, (((c.frames.take (j * (c.channels * c.sampwidth))).drop
      (i0 * (c.channels * c.sampwidth))).length / (c.channels * c.sampwidth)) ≤ j - i0 := by
    intro j
    rw [List.length_drop, List.length_take]
    calc _ ≤ (j * (c.channels * c.sampwidth) - i0 * (c.channels * c.sampwidth)) /
            (c.channels * c.sampwidth) := Nat.div_le_div_right (by omega)
      _ = (j - i0) * (c.channels * c.sampwidth) / (c.channels * c.sampwidth) := by
            rw [Nat.sub_mul]
      _ ≤ j - i0 := Nat.div_le_of_le_mul (by rw [mul_comm])
  have hone : (1 : ℚ) ≤ max_segment * c.sample_rate + 1 := by
    have := mul_nonneg hM hrate.le
    linarith
  show ((((c.frames.take ((if i1 ≤ (i0 : ℤ) then min c.n_frames (i0 + 1) else i1.toNat) * _)).drop
    _).length / _ : ℕ) : ℚ) ≤ _
  split
  · have h := hframes (min c.n_frames (i0 + 1))
    have hle : min c.n_frames (i0 + 1) - i0 ≤ 1 := by omega
    exact le_trans (by exact_mod_cast h.trans hle) hone
  · rename_i hlt
    have h := hframes i1.toNat
    have hcast : ((i1.toNat - i0 : ℕ) : ℚ) = (i1 : ℚ) - i0 := by
      have hz : ((i1.toNat - i0 : ℕ) : ℤ) = i1 - i0 := by omega
      exact_mod_cast hz
    exact le_trans (by exact_mod_cast h) (hcast ▸ hdist)

/-! ### The VAD -/

/-- The transitions a VAD session reports. -/
inductive VadEvent where | speech_start | speech_end
  deriving DecidableEq

/-- A VAD session: its window attribute, its state, and `process`, which may raise. -/
structure VadSession where
  State : Type
  init : State
  window_16k : Option ℕ
  process : State → List ℚ → Option (State × Option VadEvent)

/-- `int(getattr(session, "WINDOW_16K", 256) or 256)`. -/
def VadSession.window (v : VadSession) : ℕ :=
  match v.window_16k with
  | some (n + 1) => n + 1
  | _ => 256

theorem VadSession.window_pos (v : VadSession) : 0 < v.window := by
  unfold VadSession.window
  split <;> omega

/-- The window loop of `_speech_regions_from_vad`: the closed regions and the open start, in
    samples. -/
def speech_loop (v : VadSession) (samples : List ℚ) (i : ℕ) (st : v.State) (start : Option ℕ)
    (regions : List (ℕ × ℕ)) : Option (List (ℕ × ℕ) × Option ℕ) :=
  if _h : i + v.window ≤ samples.length then
    match v.process st ((samples.drop i).take v.window) with
    | none => none
    | some (st', event) =>
      match event, start with
      | some .speech_start, none => speech_loop v samples (i + v.window) st' (some i) regions
      | some .speech_end, some s =>
        speech_loop v samples (i + v.window) st' none (regions ++ [(s, i + v.window)])
      | _, _ => speech_loop v samples (i + v.window) st' start regions
  else some (regions, start)
  termination_by samples.length - i
  decreasing_by
    all_goals
      have hpos := v.window_pos
      omega

/-- A region that is long enough, padded on both sides, in seconds. -/
def pad_region (total sample_rate : ℕ) (r : ℕ × ℕ) : Option Bound :=
  let pad := sample_rate / 10
  if ((r.2 : ℚ) - r.1) < 1 / 10 * sample_rate then none
  else some (((r.1 - pad : ℕ) : ℚ) / sample_rate, (min total (r.2 + pad) : ℕ) / sample_rate)

/-- `_speech_regions_from_vad`; `none` when the session raises. -/
def speech_regions_from_vad (v : VadSession) (samples : List ℚ) (sample_rate : ℕ) :
    Option (List Bound) :=
  (speech_loop v samples 0 v.init none []).map fun out =>
    (out.1 ++ (out.2.map (·, samples.length)).toList).filterMap
      (pad_region samples.length sample_rate)

/-- The loop closes regions inside the clip only. -/
theorem speech_loop_le {v : VadSession} {samples : List ℚ} (i : ℕ) (st : v.State)
    (start : Option ℕ) (regions : List (ℕ × ℕ)) {out : List (ℕ × ℕ) × Option ℕ}
    (hr : ∀ r ∈ regions, r.2 ≤ samples.length)
    (h : speech_loop v samples i st start regions = some out) :
    ∀ r ∈ out.1, r.2 ≤ samples.length := by
  induction i, st, start, regions using speech_loop.induct v samples with
  | case1 i st start regions hi hp =>
    rw [speech_loop, dif_pos hi, hp] at h
    cases h
  | case2 i st regions hi st' hp ih =>
    rw [speech_loop, dif_pos hi, hp] at h
    exact ih hr h
  | case3 i st regions hi s st' hp ih =>
    rw [speech_loop, dif_pos hi, hp] at h
    refine ih (fun r hr' => ?_) h
    rcases List.mem_append.1 hr' with hr' | hr'
    · exact hr r hr'
    · obtain rfl := List.mem_singleton.1 hr'
      exact hi
  | case4 i st start regions hi st' event hp h1 h2 ih =>
    rw [speech_loop, dif_pos hi, hp] at h
    refine ih hr ?_
    dsimp only at h
    split at h
    · exact (h1 rfl rfl).elim
    · exact (h2 _ rfl rfl).elim
    · exact h
  | case5 i st start regions hi =>
    rw [speech_loop, dif_neg hi] at h
    obtain rfl := Option.some.inj h
    exact hr

/-- No region the VAD step returns is shorter than a tenth of a second. -/
theorem pad_region_long {total sample_rate : ℕ} (hrate : 0 < sample_rate) {r : ℕ × ℕ}
    (hr : r.2 ≤ total) {b : Bound} (h : pad_region total sample_rate r = some b) :
    1 / 10 ≤ b.2 - b.1 := by
  unfold pad_region at h
  dsimp only at h
  split at h
  · cases h
  · rename_i hlong
    obtain rfl := Option.some.inj h
    have hrate' : (0 : ℚ) < sample_rate := by exact_mod_cast hrate
    have hstart : ((r.1 - sample_rate / 10 : ℕ) : ℚ) ≤ r.1 := by exact_mod_cast Nat.sub_le _ _
    have hend : (r.2 : ℚ) ≤ (min total (r.2 + sample_rate / 10) : ℕ) := by
      exact_mod_cast le_min hr (Nat.le_add_right _ _)
    dsimp only
    rw [← sub_div, le_div_iff₀ hrate']
    linarith

theorem speech_regions_long {v : VadSession} {samples : List ℚ} {sample_rate : ℕ}
    (hrate : 0 < sample_rate) {regions : List Bound}
    (h : speech_regions_from_vad v samples sample_rate = some regions) :
    ∀ b ∈ regions, 1 / 10 ≤ b.2 - b.1 := by
  intro b hb
  unfold speech_regions_from_vad at h
  obtain ⟨out, hout, rfl⟩ := Option.map_eq_some_iff.1 h
  obtain ⟨r, hr, hpad⟩ := List.mem_filterMap.1 hb
  refine pad_region_long hrate ?_ hpad
  rcases List.mem_append.1 hr with hr | hr
  · exact speech_loop_le 0 v.init none [] (by simp) hout r hr
  · cases hs : out.2 with
    | none => simp [hs] at hr
    | some s =>
      obtain rfl : r = (s, samples.length) := by simpa [hs] using hr
      exact le_rfl

/-! ### The plan -/

/-- What makes the segmenter raise. -/
inductive SegmenterError where
  | odd_buffer
  | transcribe (message : String)

/-- Little-endian 16-bit samples. -/
def pcm16 : List UInt8 → List ℚ
  | lo :: hi :: rest =>
    let u : ℤ := lo.toNat + 256 * hi.toNat
    ((if u < 32768 then u else u - 65536 : ℤ) : ℚ) :: pcm16 rest
  | _ => []

/-- The channel means of whole frames. -/
def mono (channels : ℕ) (pcm : List ℚ) : List ℚ :=
  if 1 < channels then
    (List.range (pcm.length / channels)).map fun i =>
      ((pcm.drop (i * channels)).take channels).sum / channels
  else pcm

/-- `mono_float32`, in exact arithmetic; `numpy.frombuffer` refuses an odd number of bytes. -/
def WavClip.mono_float32 (c : WavClip) : Except SegmenterError (Option (List ℚ)) :=
  if c.sampwidth ≠ 2 then .ok none
  else if c.frames.length % 2 = 1 then .error .odd_buffer
  else .ok (some ((mono c.channels (pcm16 c.frames)).map (· / 32768)))

/-- What the VAD step finds: it is switched off, it cannot run, or it returns regions. -/
inductive Speech where
  | off
  | unavailable
  | regions (l : List Bound)

/-- The VAD step of `plan_segments`; `vad` is the session, `none` when there is none to be had. -/
def find_speech (c : WavClip) (vad_backend : String) (vad : Option VadSession) :
    Except SegmenterError Speech :=
  if vad_backend ∈ ["none", "off", "disabled", ""] then .ok .off
  else
    match c.mono_float32 with
    | .error e => .error e
    | .ok none => .ok .unavailable
    | .ok (some samples) =>
      if c.sample_rate ≠ 16000 then .ok .unavailable
      else
        match vad.bind fun v => speech_regions_from_vad v samples c.sample_rate with
        | none => .ok .unavailable
        | some regions => .ok (.regions regions)

inductive Strategy where | single | fixed | fixed_vad_unavailable | fixed_vad_empty | vad
  deriving DecidableEq

/-- `plan_segments`. -/
def plan_segments (c : WavClip) (max_segment overlap : ℚ) (vad_backend : String)
    (vad : Option VadSession) : Except SegmenterError (List Bound × Strategy) :=
  let fixed := fixed_segment_bounds c.duration max_segment overlap
  if c.duration ≤ max_segment then .ok ([(0, c.duration)], .single)
  else
    match find_speech c vad_backend vad with
    | .error e => .error e
    | .ok .off => .ok (fixed, .fixed)
    | .ok .unavailable => .ok (fixed, .fixed_vad_unavailable)
    | .ok (.regions []) => .ok (fixed, .fixed_vad_empty)
    | .ok (.regions regions) =>
      match group_regions regions max_segment overlap with
      | [] => .ok (fixed, .fixed_vad_empty)
      | bounds => .ok (bounds, .vad)

/-- The clips over the safe length that the plan leaves in one piece, by what the VAD found. -/
def Unsplit (c : WavClip) (max_segment overlap : ℚ) : Speech → Prop
  | .regions (r :: rest) => OneGroup max_segment overlap (r :: rest)
  | _ => OneSlice end_tolerance c.duration max_segment overlap

section
variable {c : WavClip} {max_segment overlap : ℚ} {vad_backend : String} {vad : Option VadSession}

theorem find_speech_long {l : List Bound} (h : find_speech c vad_backend vad = .ok (.regions l)) :
    ∀ b ∈ l, end_tolerance < b.2 - b.1 := by
  intro b hb
  unfold find_speech at h
  split at h
  · cases h
  · split at h
    · cases h
    · cases h
    · rename_i samples _
      split at h
      · cases h
      · split at h
        · cases h
        · rename_i regions hv
          obtain rfl : regions = l := by simpa using h
          obtain ⟨v, -, hv⟩ := Option.bind_eq_some_iff.1 hv
          have hlong := speech_regions_long c.rate_pos hv b hb
          have htol : end_tolerance < 1 / 10 := by norm_num [end_tolerance]
          linarith

/-- The fixed plan, which three of the branches of `plan_segments` fall back to. -/
theorem fixed_plan_spec (overlap : ℚ) (hM : 0 < max_segment) (hd : max_segment < c.duration) :
    (∀ b ∈ fixed_segment_bounds c.duration max_segment overlap, Fits max_segment b) ∧
      ((fixed_segment_bounds c.duration max_segment overlap).length ≤ 1 ↔
        OneSlice end_tolerance c.duration max_segment overlap) :=
  ⟨fixed_fits, fixed_length_le_one (by norm_num [end_tolerance]) hM hd⟩

/-- A plan for a clip over the safe length: every bound fits, and there is one bound at most exactly
    when what the VAD found leaves the clip in one piece. -/
theorem plan_spec (hM : 0 < max_segment) (hd : max_segment < c.duration) {bounds : List Bound}
    {strategy : Strategy}
    (h : plan_segments c max_segment overlap vad_backend vad = .ok (bounds, strategy)) :
    (∀ b ∈ bounds, Fits max_segment b) ∧ ∃ speech, find_speech c vad_backend vad = .ok speech ∧
      (bounds.length ≤ 1 ↔ Unsplit c max_segment overlap speech) := by
  have hfixed := fixed_plan_spec overlap hM hd
  unfold plan_segments at h
  rw [if_neg (not_le.2 hd)] at h
  cases hs : find_speech c vad_backend vad with
  | error e =>
    rw [hs] at h
    cases h
  | ok speech =>
    rw [hs] at h
    cases speech with
    | off =>
      obtain rfl := (Prod.mk.inj (Except.ok.inj h)).1
      exact ⟨hfixed.1, _, rfl, hfixed.2⟩
    | unavailable =>
      obtain rfl := (Prod.mk.inj (Except.ok.inj h)).1
      exact ⟨hfixed.1, _, rfl, hfixed.2⟩
    | regions l =>
      cases l with
      | nil =>
        obtain rfl := (Prod.mk.inj (Except.ok.inj h)).1
        exact ⟨hfixed.1, _, rfl, hfixed.2⟩
      | cons r rest =>
        have hlong := find_speech_long hs
        have hne : group_regions (r :: rest) max_segment overlap ≠ [] :=
          group_ne_nil hM (List.cons_ne_nil r rest) hlong
        dsimp only at h
        split at h
        · rename_i hnil
          exact absurd hnil hne
        · obtain rfl := (Prod.mk.inj (Except.ok.inj h)).1
          exact ⟨group_fits _, _, rfl, group_length_le_one hM hlong⟩

end

end LocalVoice.AsrSegmenter
