import Mathlib.Algebra.Order.Ring.Abs
import Mathlib.Algebra.Order.Ring.Int
import Mathlib.Data.List.Basic
import Mathlib.Tactic.ByContra
import Mathlib.Tactic.Linarith
import Mathlib.Tactic.Ring

/-! The microphone path of `core/realtime_relay.py`: each binary frame of the client is resampled to the
    rate of the provider and sent on. A frame is rounded to whole samples by itself, so what rounding gains
    or loses adds up over the frames; a frame of odd length is not taken, unless the rates are the same.
    The quotient of a frame's length is exact here, as its float is for all but astronomic frames. -/

namespace LocalVoice.RealtimeRelay

abbrev Bytes := List UInt8

/-! ### The code -/

/-- `round(a / s)`: to the nearest integer, a tie to the even one. -/
def round_half_even (a s : ℕ) : ℕ :=
  if 2 * (a % s) < s then a / s
  else if s < 2 * (a % s) then a / s + 1
  else a / s + a / s % 2

/-- `_resample_pcm16`, where `interp` makes so many samples out of those of the frame; `none` when it
    raises. -/
def resample_pcm16 (interp : Bytes → ℕ → Bytes) (source_rate target_rate : ℕ) (pcm : Bytes) : Option Bytes :=
  if source_rate = target_rate ∨ pcm = [] then some pcm
  else if pcm.length % 2 ≠ 0 then none
  else
    let output_count := round_half_even (pcm.length / 2 * target_rate) source_rate
    if output_count = 0 then some [] else some (interp pcm output_count)

/-- A message of the client: `text` tells whether it can be handled. -/
inductive Message where
  | disconnect
  | bytes (pcm : Bytes)
  | text (handled : Bool)

/-- The relay: the audio that was sent to the provider, and whether the session has ended. -/
structure Relay where
  appended : List Bytes
  ended : Bool
  deriving DecidableEq

section
variable (interp : Bytes → ℕ → Bytes) (source_rate target_rate : ℕ)

/-- A round of `client_to_provider`. -/
def receive (r : Relay) (message : Message) : Relay :=
  if r.ended then r
  else match message with
  | .disconnect => { r with ended := true }
  | .bytes pcm =>
    match resample_pcm16 interp source_rate target_rate pcm with
    | none => { r with ended := true }
    | some pcm => { r with appended := r.appended ++ [pcm] }
  | .text handled => { r with ended := !handled }

/-- The relay of a client that sends audio. -/
def relay (frames : List Bytes) : Relay :=
  (frames.map .bytes).foldl (receive interp source_rate target_rate) ⟨[], false⟩

end

/-! ### Length -/

/-- The complete samples of a stream. -/
def samples (frames : List Bytes) : ℕ := frames.flatten.length / 2

/-- Every frame is sent on, and at any time so many samples were sent as the rates ask for, to within
    one. -/
def Keeps (interp : Bytes → ℕ → Bytes) (source_rate target_rate : ℕ) (frames : List Bytes) : Prop :=
  ∀ k, (relay interp source_rate target_rate (frames.take k)).ended = false ∧
    (relay interp source_rate target_rate (frames.take k)).appended.length = (frames.take k).length ∧
    |(samples (relay interp source_rate target_rate (frames.take k)).appended * source_rate : ℤ) -
      samples (frames.take k) * target_rate| ≤ source_rate

/-- The remainder that is nearest to zero, where a tie goes by the quotient: what `a` lacks to the multiple
    of `s` that it is rounded to. -/
def lacks (a s : ℕ) : ℤ :=
  if 2 * (a % s) < s then -(a % s : ℕ)
  else if s < 2 * (a % s) then s - (a % s : ℕ)
  else if a / s % 2 = 0 then -(a % s : ℕ) else s - (a % s : ℕ)

/-- What the frames lack, one by one, to whole samples. -/
def drift (source_rate target_rate : ℕ) : List Bytes → ℤ
  | [] => 0
  | frame :: frames =>
    lacks (frame.length / 2 * target_rate) source_rate + drift source_rate target_rate frames

/-- The rates are the same; or every frame has whole samples, and what they lack never adds up to more than
    one. -/
def Steady (source_rate target_rate : ℕ) (frames : List Bytes) : Prop :=
  source_rate = target_rate ∨ (∀ frame ∈ frames, frame.length % 2 = 0) ∧
    ∀ k, |drift source_rate target_rate (frames.take k)| ≤ source_rate

theorem round_lacks (a s : ℕ) : (round_half_even a s * s : ℤ) = a + lacks a s := by
  have hdiv : ((a / s : ℕ) * s : ℤ) + (a % s : ℕ) = a := by
    have h := Nat.div_add_mod a s
    rw [Nat.mul_comm] at h
    exact_mod_cast h
  unfold round_half_even lacks
  split
  · linarith
  · split
    · push_cast at hdiv ⊢
      linarith
    · rcases Nat.mod_two_eq_zero_or_one (a / s) with heven | hodd
      · rw [if_pos heven, heven]
        push_cast at hdiv ⊢
        linarith
      · rw [if_neg (by omega), hodd]
        push_cast at hdiv ⊢
        linarith

theorem round_zero {s : ℕ} (hs : 0 < s) : round_half_even 0 s = 0 := by
  simp [round_half_even, hs]

section
variable {interp : Bytes → ℕ → Bytes} {source_rate target_rate : ℕ}

/-- A frame of whole samples is resampled to as many as its length is rounded to. -/
theorem resample_even (hinterp : ∀ pcm n, (interp pcm n).length = 2 * n) (hs : 0 < source_rate)
    (hne : source_rate ≠ target_rate) {pcm : Bytes} (heven : pcm.length % 2 = 0) : ∃ out,
    resample_pcm16 interp source_rate target_rate pcm = some out ∧
      out.length = 2 * round_half_even (pcm.length / 2 * target_rate) source_rate := by
  unfold resample_pcm16
  by_cases hnil : pcm = []
  · subst hnil
    refine ⟨[], if_pos (.inr rfl), ?_⟩
    rw [List.length_nil, Nat.zero_div, Nat.zero_mul, round_zero hs]
  · rw [if_neg (not_or.2 ⟨hne, hnil⟩), if_neg (not_not.2 heven)]
    dsimp only
    split
    · next hzero => exact ⟨[], rfl, by rw [hzero]; rfl⟩
    · exact ⟨_, rfl, hinterp _ _⟩

theorem resample_same {pcm : Bytes} (h : source_rate = target_rate) :
    resample_pcm16 interp source_rate target_rate pcm = some pcm := if_pos (.inl h)

/-- A frame of odd length raises. -/
theorem resample_odd (hne : source_rate ≠ target_rate) {pcm : Bytes} (hodd : pcm.length % 2 ≠ 0) :
    resample_pcm16 interp source_rate target_rate pcm = none := by
  have hnil : pcm ≠ [] := by
    rintro rfl
    exact hodd rfl
  rw [resample_pcm16, if_neg (not_or.2 ⟨hne, hnil⟩), if_pos hodd]

/-- What a frame is resampled to. -/
def resampled (interp : Bytes → ℕ → Bytes) (source_rate target_rate : ℕ) (pcm : Bytes) : Bytes :=
  (resample_pcm16 interp source_rate target_rate pcm).getD []

theorem receive_sent {frame out : Bytes} (h : resample_pcm16 interp source_rate target_rate frame = some out)
    (appended : List Bytes) : receive interp source_rate target_rate ⟨appended, false⟩ (.bytes frame) =
      ⟨appended ++ [resampled interp source_rate target_rate frame], false⟩ := by
  simp [receive, resampled, h]

theorem receive_raised {frame : Bytes} (h : resample_pcm16 interp source_rate target_rate frame = none)
    (appended : List Bytes) : receive interp source_rate target_rate ⟨appended, false⟩ (.bytes frame) =
      ⟨appended, true⟩ := by
  simp [receive, h]

/-- A session that has ended stays ended. -/
theorem receive_ended (messages : List Message) {r : Relay} (h : r.ended = true) :
    (messages.foldl (receive interp source_rate target_rate) r).ended = true := by
  induction messages generalizing r with
  | nil => exact h
  | cons message messages ih =>
    refine ih ?_
    rw [receive.eq_def, if_pos h]
    exact h

/-- While no frame raises, each one is sent on. -/
theorem relay_from {frames : List Bytes} (appended : List Bytes)
    (h : ∀ frame ∈ frames, ∃ out, resample_pcm16 interp source_rate target_rate frame = some out) :
    (frames.map .bytes).foldl (receive interp source_rate target_rate) ⟨appended, false⟩ =
      ⟨appended ++ frames.map (resampled interp source_rate target_rate), false⟩ := by
  induction frames generalizing appended with
  | nil => rw [List.map_nil, List.map_nil, List.append_nil, List.foldl_nil]
  | cons frame frames ih =>
    obtain ⟨⟨out, hout⟩, hrest⟩ := List.forall_mem_cons.1 h
    rw [List.map_cons, List.foldl_cons, receive_sent hout, ih _ hrest, List.map_cons, List.append_assoc,
      List.singleton_append]

theorem relay_all {frames : List Bytes}
    (h : ∀ frame ∈ frames, ∃ out, resample_pcm16 interp source_rate target_rate frame = some out) :
    relay interp source_rate target_rate frames =
      ⟨frames.map (resampled interp source_rate target_rate), false⟩ := relay_from [] h

/-- A session that goes on has had no frame that raises. -/
theorem relay_going {frames : List Bytes} {appended : List Bytes}
    (h : ((frames.map .bytes).foldl (receive interp source_rate target_rate) ⟨appended, false⟩).ended = false) :
    ∀ frame ∈ frames, ∃ out, resample_pcm16 interp source_rate target_rate frame = some out := by
  induction frames generalizing appended with
  | nil => exact fun frame hframe => absurd hframe List.not_mem_nil
  | cons frame frames ih =>
    rw [List.map_cons, List.foldl_cons] at h
    cases hout : resample_pcm16 interp source_rate target_rate frame with
    | none =>
      rw [receive_raised hout, receive_ended _ rfl] at h
      cases h
    | some out =>
      rw [receive_sent hout] at h
      exact List.forall_mem_cons.2 ⟨⟨out, hout⟩, ih h⟩

/-- The samples that are sent of frames of whole samples: what the rates ask for, and what the frames
    lack. -/
theorem samples_drift (hinterp : ∀ pcm n, (interp pcm n).length = 2 * n) (hs : 0 < source_rate)
    (hne : source_rate ≠ target_rate) {frames : List Bytes} (heven : ∀ frame ∈ frames, frame.length % 2 = 0) :
    (samples (frames.map (resampled interp source_rate target_rate)) * source_rate : ℤ) =
      samples frames * target_rate + drift source_rate target_rate frames := by
  have hhalves : ∃ m n : ℕ, (frames.map (resampled interp source_rate target_rate)).flatten.length = 2 * m ∧
      frames.flatten.length = 2 * n ∧
      (m * source_rate : ℤ) = n * target_rate + drift source_rate target_rate frames := by
    induction frames with
    | nil => exact ⟨0, 0, rfl, rfl, by simp [drift]⟩
    | cons frame frames ih =>
      obtain ⟨hframe, hframes⟩ := List.forall_mem_cons.1 heven
      obtain ⟨m, n, hm, hn, hsum⟩ := ih hframes
      obtain ⟨out, hout, hlen⟩ := @resample_even interp _ target_rate hinterp hs hne _ hframe
      refine ⟨round_half_even (frame.length / 2 * target_rate) source_rate + m, frame.length / 2 + n,
        ?_, ?_, ?_⟩
      · simp only [List.map_cons, List.flatten_cons, List.length_append, resampled, hout,
          Option.getD_some] at hm ⊢
        omega
      · rw [List.flatten_cons, List.length_append]
        omega
      · have hround := round_lacks (frame.length / 2 * target_rate) source_rate
        rw [drift]
        push_cast at hround ⊢
        linarith
  obtain ⟨m, n, hm, hn, hsum⟩ := hhalves
  rw [samples, samples, hm, hn, Nat.mul_div_cancel_left m Nat.two_pos, Nat.mul_div_cancel_left n Nat.two_pos]
  exact hsum

end

/-- The relay keeps the length of the audio exactly when the frames are steady. -/
theorem relay_keeps_length (interp : Bytes → ℕ → Bytes) (hinterp : ∀ pcm n, (interp pcm n).length = 2 * n)
    (source_rate target_rate : ℕ) (hs : 0 < source_rate) (frames : List Bytes) :
    Keeps interp source_rate target_rate frames ↔ Steady source_rate target_rate frames := by
  by_cases hsame : source_rate = target_rate
  · refine ⟨fun _ => .inl hsame, fun _ k => ?_⟩
    have hall := @relay_all interp source_rate target_rate (frames.take k) fun frame _ =>
      ⟨frame, resample_same hsame⟩
    have hid : resampled interp source_rate target_rate = id := by
      funext frame
      rw [resampled, resample_same hsame]
      rfl
    rw [hall, hid, List.map_id, hsame]
    refine ⟨rfl, rfl, ?_⟩
    rw [sub_self, abs_zero]
    exact Int.natCast_nonneg _
  · have hdrift : ∀ k, (∀ frame ∈ frames, frame.length % 2 = 0) →
        (samples ((frames.take k).map (resampled interp source_rate target_rate)) * source_rate : ℤ) -
          samples (frames.take k) * target_rate = drift source_rate target_rate (frames.take k) := by
      intro k heven
      have hsamples := @samples_drift interp _ _ hinterp hs hsame (frames.take k)
        fun frame hframe => heven frame (List.mem_of_mem_take hframe)
      rw [hsamples, add_sub_cancel_left]
    constructor
    · intro hkeeps
      have heven : ∀ frame ∈ frames, frame.length % 2 = 0 := by
        intro frame hframe
        have hgoing := relay_going (hkeeps frames.length).1 frame (by rwa [List.take_length])
        by_contra hodd
        obtain ⟨out, hout⟩ := hgoing
        rw [resample_odd hsame hodd] at hout
        cases hout
      refine .inr ⟨heven, fun k => ?_⟩
      obtain ⟨hgoing, -, hclose⟩ := hkeeps k
      rwa [relay_all (relay_going hgoing), hdrift k heven] at hclose
    · rintro (heq | ⟨heven, hclose⟩)
      · exact absurd heq hsame
      · intro k
        have hall := @relay_all interp source_rate target_rate (frames.take k) fun frame hframe =>
          (@resample_even interp _ _ hinterp hs hsame frame
            (heven frame (List.mem_of_mem_take hframe))).imp fun out hout => hout.1
        rw [hall]
        refine ⟨rfl, List.length_map _, ?_⟩
        rw [hdrift k heven]
        exact hclose k

/-- Frames of 20 ms, from 48 kHz down to 24 kHz. -/
theorem relay_keeps_halves : Keeps (fun _ n => List.replicate (2 * n) 0) 48000 24000
    (List.replicate 3 (List.replicate 1920 0)) := by
  refine (relay_keeps_length _ (fun _ n => List.length_replicate) 48000 24000 (by decide) _).2 (.inr ⟨?_, ?_⟩)
  · intro frame hframe
    rw [List.eq_of_mem_replicate hframe, List.length_replicate]
  · intro k
    rw [List.take_replicate]
    have hzero : ∀ m, drift 48000 24000 (List.replicate m (List.replicate 1920 0)) = 0 := by
      intro m
      induction m with
      | zero => rfl
      | succ m ih =>
        rw [List.replicate_succ, drift, ih, List.length_replicate]
        rfl
    rw [hzero, abs_zero]
    exact Int.natCast_nonneg _

/-- Four frames of four samples are sent as one sample each; and half a sample ends the session. -/
theorem relay_drifts : ¬ (∀ frames, Keeps (fun _ n => List.replicate (2 * n) 0) 48000 16000 frames) ∧
    (relay (fun _ n => List.replicate (2 * n) 0) 48000 16000 [[0]]).ended = true := by
  refine ⟨fun hall => ?_, rfl⟩
  have hclose := (hall (List.replicate 4 (List.replicate 8 0)) 4).2.2
  revert hclose
  decide

/-! ### Frames of one length -/

theorem lacks_zero {a s : ℕ} (hs : 0 < s) : lacks a s = 0 ↔ s ∣ a := by
  have hmod := Nat.mod_lt a hs
  rw [Nat.dvd_iff_mod_eq_zero, lacks]
  split
  · omega
  · split
    · omega
    · split <;> omega

theorem drift_replicate (source_rate target_rate : ℕ) (frame : Bytes) (m : ℕ) :
    drift source_rate target_rate (List.replicate m frame) =
      m * lacks (frame.length / 2 * target_rate) source_rate := by
  induction m with
  | zero => simp [drift]
  | succ m ih =>
    rw [List.replicate_succ, drift, ih]
    push_cast
    ring

/-- A client whose frames are all alike stays in step, however many they are, exactly when a frame makes
    whole samples at the other rate. -/
theorem steady_replicate {source_rate : ℕ} (hs : 0 < source_rate) (target_rate : ℕ) (frame : Bytes) :
    (∀ m, Steady source_rate target_rate (List.replicate m frame)) ↔
      source_rate = target_rate ∨ frame.length % 2 = 0 ∧ source_rate ∣ frame.length / 2 * target_rate := by
  by_cases hsame : source_rate = target_rate
  · exact ⟨fun _ => .inl hsame, fun _ _ => .inl hsame⟩
  · simp only [Steady, hsame, false_or, List.take_replicate, drift_replicate, ← lacks_zero hs]
    constructor
    · intro h
      refine ⟨(h 1).1 frame (List.mem_singleton_self frame), ?_⟩
      have hclose := (h (source_rate + 1)).2 (source_rate + 1)
      rw [Nat.min_self, abs_mul, Nat.abs_cast] at hclose
      by_contra hne
      have hpos : 1 ≤ |lacks (frame.length / 2 * target_rate) source_rate| := Int.one_le_abs hne
      push_cast at hclose
      nlinarith
    · rintro ⟨heven, hzero⟩ m
      refine ⟨fun f hf => by rw [List.eq_of_mem_replicate hf, heven], fun k => ?_⟩
      rw [hzero, mul_zero, abs_zero]
      exact Int.natCast_nonneg _
end LocalVoice.RealtimeRelay
