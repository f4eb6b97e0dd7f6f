import LocalVoice.AsrSegmenter.Plan
import LocalVoice.Lib.PyText

/-! Rejoining the segment transcripts (`strip_overlap_repeat`, `join_segment_texts`), on the
    characters of the texts. -/

namespace LocalVoice.AsrSegmenter
open LocalVoice.Lib

/-- `_CJK_RANGES`. -/
def cjk_ranges : List (ℕ × ℕ) :=
  [(0x3000, 0x303F), (0x3040, 0x30FF), (0x3400, 0x4DBF), (0x4E00, 0x9FFF), (0xF900, 0xFAFF),
    (0xFF00, 0xFFEF), (0x20000, 0x2FA1F), (0xAC00, 0xD7AF)]

/-- `is_cjk`. -/
def is_cjk (ch : Char) : Bool := cjk_ranges.any fun r => r.1 ≤ ch.toNat && ch.toNat ≤ r.2

/-- `_MAX_OVERLAP_DEDUP_CHARS`. -/
def max_overlap_dedup_chars : ℕ := 60

/-- The test of `strip_overlap_repeat` on one length: the head of that length repeats the tail of
    `prev` and, outside CJK, starts and ends on a word boundary. -/
def repeats (prev cur : List Char) (n : ℕ) : Bool :=
  let head := cur.take n
  head.isSuffixOf prev &&
    (head.all is_cjk ||
      (((prev.take (prev.length - n)).getLast?.all PyText.is_space) &&
        ((cur.drop n).head?.all PyText.is_space)))

/-- The `for n in range(limit, 0, -1)` loop: the longest repeated head is dropped. -/
def strip_from (prev cur : List Char) : ℕ → List Char
  | 0 => cur
  | n + 1 =>
    if repeats prev cur (n + 1) then PyText.lstrip (cur.drop (n + 1)) else strip_from prev cur n

/-- `strip_overlap_repeat`. -/
def strip_overlap_repeat (prev cur : List Char) : List Char :=
  strip_from prev cur (min (min prev.length cur.length) max_overlap_dedup_chars)

/-- The loop body of `join_segment_texts`. -/
def join_one (out raw : List Char) : List Char :=
  let piece := PyText.strip_chars raw
  if piece = [] then out
  else if out = [] then piece
  else
    match strip_overlap_repeat out piece, out.getLast? with
    | right :: rest, some left =>
      if PyText.is_space left || PyText.is_space right || (is_cjk left && is_cjk right) then
        out ++ right :: rest
      else out ++ ' ' :: right :: rest
    | _, _ => out

/-- `join_segment_texts`. -/
def join_segment_texts (parts : List String) : String :=
  String.ofList ((parts.map String.toList).foldl join_one [])

example : join_segment_texts ["called for the boy", " the boy ran", "你好"] =
    "called for the boy ran 你好" := by decide

/-! The configuration of the segmenter, `maybe_transcribe_segmented`, and `_decode` of
    `server/core/api_execution.py`, which hands the whole clip to the backend when the segmenter
    returns nothing. What reaches `backend.transcribe` is recorded in a log; `decode_within_iff`
    says when all of it stays within the safe length.

        plan_segments ──▶ two bounds or more ──▶ one transcribe() per slice
             │ one bound: maybe_transcribe_segmented returns None
             └──▶ transcribe() of the whole clip, however long it is -/

/-- `os.environ`. -/
abbrev Env := String → Option String

/-- What is handed to `backend.transcribe`: the original bytes, or a slice cut from them. -/
inductive Payload where
  | whole (audio : Option Wav)
  | slice (w : Wav)

structure Transcript where
  text : String
  language : Option String

/-- An offline backend: its name, its numeric attributes (`float(getattr(backend, attr, None))`,
    `none` where that raises), and `transcribe`, which may look back on the calls before and may
    raise. -/
structure Backend where
  name : String
  attr : String → Option ℚ
  transcribe : String → List Payload → Payload → Except String Transcript

/-! ### Configuration -/

def default_max_segment_seconds : ℚ := 105 / 10
def default_overlap_seconds : ℚ := 4 / 10

/-- `_BACKEND_LIMIT_ATTRS`. -/
def backend_limit_attrs : List String :=
  ["max_segment_seconds", "max_offline_audio_seconds", "max_audio_seconds", "max_input_seconds"]

/-- `_backend_name`. -/
def backend_name (b : Backend) : String := PyText.lower (PyText.strip b.name)

/-- `backend_chunks_internally`. -/
def backend_chunks_internally (b : Backend) : Bool :=
  ["paraformer_trt", "trt_edgellm", "sherpa_asr"].contains (backend_name b) ||
    PyText.startswith (backend_name b) "rk:"

/-- `truthy`. -/
def truthy (value : String) : Bool :=
  ["1", "true", "yes", "on"].contains (PyText.lower (PyText.strip value))

/-- `auto_segment_enabled`. -/
def auto_segment_enabled (env : Env) : Bool :=
  match env "OVS_ASR_AUTO_SEGMENT" with
  | none => true
  | some raw => if PyText.strip raw = "" then true else truthy raw

section
variable (parse_float : String → Option ℚ) (create_vad : String → Option VadSession)

/-- `env_float`. -/
def env_float (key : String) (default : ℚ) (env : Env) : ℚ :=
  ((env key).map fun raw => (parse_float raw).getD default).getD default

/-- The part of `resolve_max_segment_seconds` after the environment: the backend's own limit, no
    limit for a backend that chunks, the default. -/
def backend_max_seconds (b : Backend) : ℚ :=
  match backend_limit_attrs.findSome? fun a => (b.attr a).filter (0 < ·) with
  | some value => value
  | none => if backend_chunks_internally b then 0 else default_max_segment_seconds

/-- `resolve_max_segment_seconds`. -/
def resolve_max_segment_seconds (b : Backend) (env : Env) : ℚ :=
  let value := env_float parse_float "OVS_ASR_MAX_SEGMENT_SECONDS" default_max_segment_seconds env
  match (env "OVS_ASR_MAX_SEGMENT_SECONDS").filter (· ≠ "") with
  | some _ => if 0 < value then value else backend_max_seconds b
  | none => backend_max_seconds b

/-- `resolve_overlap_seconds`. -/
def resolve_overlap_seconds (env : Env) : ℚ :=
  max 0 (env_float parse_float "OVS_ASR_SEGMENT_OVERLAP_SECONDS" default_overlap_seconds env)

/-- `resolve_vad_backend`. -/
def resolve_vad_backend (env : Env) : String :=
  PyText.lower (PyText.strip (((env "OVS_ASR_SEGMENT_VAD").filter (· ≠ "")).getD "silero"))

/-! ### Decoding -/

structure DecodedSegment where
  index : ℕ
  start : ℚ
  stop : ℚ
  text : String
  language : Option String

structure SegmentedTranscription where
  text : String
  language : Option String
  segments : List DecodedSegment
  total_duration : ℚ
  strategy : Strategy
  max_segment_seconds : ℚ
  overlap_seconds : ℚ

/-- The loop over the bounds: one `transcribe` per slice, in order. -/
def decode_segments (b : Backend) (c : WavClip) (language : String) :
    List Payload → ℕ → List Bound → List Payload × Except SegmenterError (List DecodedSegment)
  | log, _, [] => (log, .ok [])
  | log, idx, bound :: rest =>
    let chunk := Payload.slice (c.slice_wav bound)
    match b.transcribe language log chunk with
    | .error e => (log ++ [chunk], .error (.transcribe e))
    | .ok r =>
      let out := decode_segments b c language (log ++ [chunk]) (idx + 1) rest
      (out.1, out.2.map (⟨idx, bound.1, bound.2, r.text, r.language.filter (· ≠ "")⟩ :: ·))

/-- `max(dict.fromkeys(languages), key=languages.count)`: the first of the most frequent ones. -/
def most_frequent (languages : List String) : Option String :=
  languages.foldl (fun best l =>
    match best with
    | none => some l
    | some m => if languages.count m < languages.count l then some l else some m) none

/-- The result that is built from the decoded segments. -/
def aggregate (c : WavClip) (strategy : Strategy) (max_seconds overlap : ℚ)
    (segments : List DecodedSegment) : SegmentedTranscription :=
  { text := join_segment_texts (segments.map (·.text))
    language := most_frequent (segments.filterMap (·.language))
    segments := segments
    total_duration := c.duration
    strategy := strategy
    max_segment_seconds := max_seconds
    overlap_seconds := overlap }

/-- `maybe_transcribe_segmented`, with the payloads it hands to the backend. -/
def maybe_transcribe_segmented (b : Backend) (audio : Option Wav) (language : String) (env : Env) :
    List Payload × Except SegmenterError (Option SegmentedTranscription) :=
  if auto_segment_enabled env = false then ([], .ok none)
  else
    let max_seconds := resolve_max_segment_seconds parse_float b env
    if max_seconds ≤ 0 then ([], .ok none)
    else
      match probe_wav audio with
      | none => ([], .ok none)
      | some c =>
        if c.duration ≤ max_seconds then ([], .ok none)
        else
          let overlap := resolve_overlap_seconds parse_float env
          let vad_backend := resolve_vad_backend env
          match plan_segments c max_seconds overlap vad_backend (create_vad vad_backend) with
          | .error e => ([], .error e)
          | .ok (bounds, strategy) =>
            if bounds.length ≤ 1 then ([], .ok none)
            else
              let out := decode_segments b c language [] 0 bounds
              (out.1, out.2.map (some ∘ aggregate c strategy max_seconds overlap))

inductive DecodeResult where
  | segmented (s : SegmentedTranscription)
  | single (t : Transcript)

/-- `_decode`: the segmenter first, the whole clip when it returns nothing or raises. -/
def decode (b : Backend) (audio : Option Wav) (language : String) (env : Env) :
    List Payload × Except String DecodeResult :=
  match maybe_transcribe_segmented parse_float create_vad b audio language env with
  | (log, .ok (some s)) => (log, .ok (.segmented s))
  | (log, _) => (log ++ [.whole audio], (b.transcribe language log (.whole audio)).map .single)

/-! ### What reaches the backend -/

/-- A slice lasts at most `max_segment` up to one frame, and the whole clip is not longer. -/
def Payload.Within (max_segment : ℚ) : Payload → Prop
  | .whole audio => ∀ c, probe_wav audio = some c → c.duration ≤ max_segment
  | .slice w => (w.nframes : ℚ) ≤ max_segment * w.framerate + 1

/-- The loop hands over slices of its bounds only. -/
theorem decode_segments_log {b : Backend} {c : WavClip} {language : String} :
    ∀ {bounds : List Bound} {log : List Payload} {idx : ℕ},
      ∀ p ∈ (decode_segments b c language log idx bounds).1,
        p ∈ log ∨ ∃ bound ∈ bounds, p = .slice (c.slice_wav bound)
  | [], log, idx, p, hp => Or.inl hp
  | bound :: rest, log, idx, p, hp => by
      have hhead : ∀ q ∈ log ++ [Payload.slice (c.slice_wav bound)],
          q ∈ log ∨ ∃ bd ∈ bound :: rest, q = .slice (c.slice_wav bd) := by
        intro q hq
        rcases List.mem_append.1 hq with hq | hq
        · exact Or.inl hq
        · exact Or.inr ⟨bound, by simp, List.mem_singleton.1 hq⟩
      unfold decode_segments at hp
      dsimp only at hp
      split at hp
      · exact hhead p hp
      · rcases decode_segments_log p hp with hp | ⟨bd, hbd, rfl⟩
        · exact hhead p hp
        · exact Or.inr ⟨bd, by simp [hbd], rfl⟩

variable {parse_float} {create_vad} {b : Backend} {audio : Option Wav} {language : String}
  {env : Env} {c : WavClip}

/-- A clip over the safe length: the plan decides. -/
theorem segmented_eq (language : String) (henabled : auto_segment_enabled env = true)
    (hM : 0 < resolve_max_segment_seconds parse_float b env) (hclip : probe_wav audio = some c)
    (hd : resolve_max_segment_seconds parse_float b env < c.duration) {bounds : List Bound}
    {strategy : Strategy}
    (hplan : plan_segments c (resolve_max_segment_seconds parse_float b env)
      (resolve_overlap_seconds parse_float env) (resolve_vad_backend env)
      (create_vad (resolve_vad_backend env)) = .ok (bounds, strategy)) :
    maybe_transcribe_segmented parse_float create_vad b audio language env =
      if bounds.length ≤ 1 then ([], .ok none)
      else ((decode_segments b c language [] 0 bounds).1,
        (decode_segments b c language [] 0 bounds).2.map (some ∘ aggregate c strategy
          (resolve_max_segment_seconds parse_float b env)
          (resolve_overlap_seconds parse_float env))) := by
  simp only [maybe_transcribe_segmented, henabled, hclip, if_neg (not_le.2 hM),
    if_neg (not_le.2 hd), Bool.true_eq_false, if_false, hplan]

theorem plan_ok (henabled : auto_segment_enabled env = true)
    (hM : 0 < resolve_max_segment_seconds parse_float b env) (hclip : probe_wav audio = some c)
    (hd : resolve_max_segment_seconds parse_float b env < c.duration)
    (hok : ∀ e, (maybe_transcribe_segmented parse_float create_vad b audio language env).2 ≠
      .error e) :
    ∃ bounds strategy, plan_segments c (resolve_max_segment_seconds parse_float b env)
      (resolve_overlap_seconds parse_float env) (resolve_vad_backend env)
      (create_vad (resolve_vad_backend env)) = .ok (bounds, strategy) := by
  cases hplan : plan_segments c (resolve_max_segment_seconds parse_float b env)
      (resolve_overlap_seconds parse_float env) (resolve_vad_backend env)
      (create_vad (resolve_vad_backend env)) with
  | ok out => exact ⟨out.1, out.2, rfl⟩
  | error e =>
    refine absurd ?_ (hok e)
    simp only [maybe_transcribe_segmented, henabled, hclip, if_neg (not_le.2 hM),
      if_neg (not_le.2 hd), Bool.true_eq_false, if_false, hplan]

/-- When the segmenter returns nothing the log is the whole clip. -/
theorem decode_whole
    (h : maybe_transcribe_segmented parse_float create_vad b audio language env = ([], .ok none)) :
    (decode parse_float create_vad b audio language env).1 = [.whole audio] := by
  simp [decode, h]

theorem whole_within (hclip : probe_wav audio = some c) {max_segment : ℚ} :
    (∀ p ∈ [Payload.whole audio], p.Within max_segment) ↔ c.duration ≤ max_segment := by
  simp [Payload.Within, hclip]

/-- A plan of several bounds reaches the backend as slices that fit. -/
theorem slices_within {max_segment : ℚ} (hM : 0 < max_segment) {bounds : List Bound}
    (hfit : ∀ bound ∈ bounds, Fits max_segment bound) :
    ∀ p ∈ (decode_segments b c language [] 0 bounds).1, p.Within max_segment := by
  intro p hp
  rcases decode_segments_log p hp with hp | ⟨bound, hbound, rfl⟩
  · simp at hp
  · exact c.slice_nframes_le hM.le (hfit bound hbound)

end

/-- Every payload stays within the safe length exactly when the clip does, or when what the VAD
    found does not leave it in one piece. -/
theorem decode_within_iff (parse_float : String → Option ℚ)
    (create_vad : String → Option VadSession) (b : Backend) (audio : Option Wav)
    (language : String) (env : Env) (c : WavClip) (henabled : auto_segment_enabled env = true)
    (hM : 0 < resolve_max_segment_seconds parse_float b env) (hclip : probe_wav audio = some c)
    (hok : ∀ e, (maybe_transcribe_segmented parse_float create_vad b audio language env).2 ≠
      .error e) :
    (∀ p ∈ (decode parse_float create_vad b audio language env).1,
        p.Within (resolve_max_segment_seconds parse_float b env)) ↔
      c.duration ≤ resolve_max_segment_seconds parse_float b env ∨
      ∃ speech, find_speech c (resolve_vad_backend env) (create_vad (resolve_vad_backend env)) =
          .ok speech ∧
        ¬ Unsplit c (resolve_max_segment_seconds parse_float b env)
          (resolve_overlap_seconds parse_float env) speech := by
  rcases le_or_gt c.duration (resolve_max_segment_seconds parse_float b env) with hd | hd
  · have hnone : maybe_transcribe_segmented parse_float create_vad b audio language env =
        ([], .ok none) := by
      simp only [maybe_transcribe_segmented, henabled, hclip, if_neg (not_le.2 hM), hd,
        Bool.true_eq_false, if_false, if_true]
    rw [decode_whole hnone, whole_within hclip]
    exact iff_of_true hd (Or.inl hd)
  · obtain ⟨bounds, strategy, hplan⟩ := plan_ok henabled hM hclip hd hok
    obtain ⟨hfit, speech, hspeech, hlen⟩ := plan_spec hM hd hplan
    have heq := segmented_eq language henabled hM hclip hd hplan
    by_cases hone : bounds.length ≤ 1
    · -- one bound: the caller gets nothing back and decodes the whole clip
      rw [if_pos hone] at heq
      rw [decode_whole heq, whole_within hclip]
      refine iff_of_false (not_le.2 hd) ?_
      rintro (h | ⟨speech', hspeech', hsplit⟩)
      · exact not_le.2 hd h
      · obtain rfl : speech = speech' := Except.ok.inj (hspeech.symm.trans hspeech')
        exact hsplit (hlen.1 hone)
    · -- several bounds: only slices are handed over
      rw [if_neg hone] at heq
      refine iff_of_true ?_ (Or.inr ⟨speech, hspeech, fun h => hone (hlen.2 h)⟩)
      cases hsegs : (decode_segments b c language [] 0 bounds).2 with
      | error e =>
        rw [hsegs] at heq
        exact absurd (by rw [heq]; rfl) (hok e)
      | ok segments =>
        rw [hsegs] at heq
        simp only [decode, heq]
        exact slices_within hM hfit

/-! ### Two clips on SenseVoice, without a VAD -/

def sensevoice : Backend := ⟨"sensevoice_trt", fun _ => none, fun _ _ _ => .ok ⟨"", none⟩⟩

/-- A 16 kHz mono clip of `n` silent frames. -/
def silence (n : ℕ) : Wav := ⟨16000, 1, 2, n, List.replicate (2 * n) 0⟩

def silence_clip (n : ℕ) : WavClip := ⟨16000, 1, 2, n, List.replicate (2 * n) 0, by norm_num⟩

/-- `decode` with nothing configured and no VAD model. -/
def decode_default (w : Wav) : List Payload × Except String DecodeResult :=
  decode (fun _ => none) (fun _ => none) sensevoice (some w) "auto" fun _ => none

section
variable {n : ℕ}

theorem probe_silence (hn : 0 < n) : probe_wav (some (silence n)) = some (silence_clip n) := by
  simp [probe_wav, silence, silence_clip, hn.ne']

theorem default_limit :
    resolve_max_segment_seconds (fun _ => none) sensevoice (fun _ => none) = 21 / 2 := by
  have h : resolve_max_segment_seconds (fun _ => none) sensevoice (fun _ => none) =
      default_max_segment_seconds := by decide +kernel
  rw [h]
  norm_num [default_max_segment_seconds]

theorem default_overlap : resolve_overlap_seconds (fun _ => none) (fun _ => none) = 2 / 5 := by
  norm_num [resolve_overlap_seconds, env_float, default_overlap_seconds]

theorem default_step : slice_step (21 / 2) (2 / 5) = 101 / 10 := by
  norm_num [slice_step, used_overlap]

theorem find_speech_silence : find_speech (silence_clip n) "silero" none = .ok .unavailable := by
  simp [find_speech, WavClip.mono_float32, silence_clip]

/-- A backend that never raises leaves no error. -/
theorem decode_segments_ok {b : Backend} {r : Transcript} (c : WavClip) (language : String)
    (h : ∀ log p, b.transcribe language log p = .ok r) : ∀ (bounds : List Bound)
    (log : List Payload) (idx : ℕ),
    ∃ segments, (decode_segments b c language log idx bounds).2 = .ok segments
  | [], _, _ => ⟨_, rfl⟩
  | bound :: rest, log, idx => by
      obtain ⟨segments, hs⟩ := decode_segments_ok c language h rest
        (log ++ [.slice (c.slice_wav bound)]) (idx + 1)
      simp [decode_segments, h, hs, Except.map]

theorem silence_long (hn : 168000 < n) : 21 / 2 < (silence_clip n).duration := by
  rw [WavClip.duration, lt_div_iff₀ (by norm_num [silence_clip])]
  norm_num [silence_clip]
  exact_mod_cast hn

theorem silence_plan (hn : 168000 < n) : plan_segments (silence_clip n)
    (resolve_max_segment_seconds (fun _ => none) sensevoice fun _ => none)
    (resolve_overlap_seconds (fun _ => none) fun _ => none) (resolve_vad_backend fun _ => none)
    none = .ok (fixed_segment_bounds (silence_clip n).duration (21 / 2)
      (resolve_overlap_seconds (fun _ => none) fun _ => none), .fixed_vad_unavailable) := by
  have hname : resolve_vad_backend (fun _ => none) = "silero" := by decide
  rw [default_limit, plan_segments, if_neg (not_le.2 (silence_long hn)), hname,
    find_speech_silence]

/-- The segmenter does not raise on silence over the safe length. -/
theorem silence_ok (hn : 168000 < n) (e : SegmenterError) :
    (maybe_transcribe_segmented (fun _ => none) (fun _ => none) sensevoice (some (silence n))
      "auto" (fun _ => none)).2 ≠ .error e := by
  rw [segmented_eq "auto" (by decide) (by rw [default_limit]; norm_num) (probe_silence (by omega))
    (by rw [default_limit]; exact silence_long hn) (silence_plan hn)]
  split
  · simp
  · obtain ⟨segments, hs⟩ := decode_segments_ok (silence_clip n) "auto"
      (fun _ _ => (rfl : sensevoice.transcribe "auto" _ _ = .ok ⟨"", none⟩)) _ [] 0
    rw [hs]
    simp [Except.map]

theorem silence_passed_whole (hn : 168000 < n)
    (hone : (fixed_segment_bounds (silence_clip n).duration (21 / 2) (2 / 5)).length ≤ 1) :
    ¬ ∀ p ∈ (decode_default (silence n)).1, p.Within (21 / 2) := by
  have hnone : maybe_transcribe_segmented (fun _ => none) (fun _ => none) sensevoice
      (some (silence n)) "auto" (fun _ => none) = ([], .ok none) := by
    rw [segmented_eq "auto" (by decide) (by rw [default_limit]; norm_num)
      (probe_silence (by omega)) (by rw [default_limit]; exact silence_long hn)
      (silence_plan hn), default_overlap, if_pos hone]
  rw [decode_default, decode_whole hnone, whole_within (probe_silence (by omega))]
  exact not_le.2 (silence_long hn)

end

/-- Half a minute is cut into slices. -/
theorem decode_within_half_minute : 21 / 2 < (silence_clip 480000).duration ∧
    ∀ p ∈ (decode_default (silence 480000)).1, p.Within (21 / 2) := by
  have h := decode_within_iff (fun _ => none) (fun _ => none) sensevoice (some (silence 480000))
    "auto" (fun _ => none) (silence_clip 480000) (by decide) (by rw [default_limit]; norm_num)
    (probe_silence (by norm_num)) (silence_ok (by norm_num))
  rw [default_limit] at h
  refine ⟨silence_long (by norm_num), h.2 (Or.inr ⟨.unavailable, find_speech_silence, ?_⟩)⟩
  show ¬ OneSlice _ _ _ _
  rw [OneSlice, default_overlap, default_step]
  norm_num [WavClip.duration, silence_clip, end_tolerance]

/-- 10.55 s are two slices of which the tail fold makes one, so the backend gets all of it. -/
theorem folded_tail_passed_whole :
    auto_segment_enabled (fun _ => none) = true ∧
    resolve_max_segment_seconds (fun _ => none) sensevoice (fun _ => none) = 21 / 2 ∧
    probe_wav (some (silence 168800)) = some (silence_clip 168800) ∧
    (∀ e, (maybe_transcribe_segmented (fun _ => none) (fun _ => none) sensevoice
      (some (silence 168800)) "auto" (fun _ => none)).2 ≠ .error e) ∧
    ¬ ∀ p ∈ (decode_default (silence 168800)).1, p.Within (21 / 2) := by
  have hone : (fixed_segment_bounds (silence_clip 168800).duration (21 / 2) (2 / 5)).length ≤ 1 := by
    rw [fixed_segment_bounds, fixed_length_le_one (by norm_num [end_tolerance]) (by norm_num)
      (silence_long (by norm_num)), OneSlice, default_step]
    norm_num [WavClip.duration, silence_clip, end_tolerance, min_tail_seconds]
  exact ⟨by decide, default_limit, probe_silence (by norm_num), silence_ok (by norm_num),
    silence_passed_whole (by norm_num) hone⟩

end LocalVoice.AsrSegmenter
