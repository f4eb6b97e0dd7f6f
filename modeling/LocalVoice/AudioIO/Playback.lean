import Mathlib.Algebra.Order.Field.Rat
import Mathlib.Data.Nat.Cast.Order.Field
import Mathlib.Tactic.GCongr
import Mathlib.Tactic.Positivity
import Mathlib.Tactic.Ring
import LocalVoice.Lib.Run

/-! Playback in `AudioIO` of `agent/ovs_agent/audio_io.py`. The methods run on the event loop and await
    nothing between what they read and what they write; the output callback comes on a thread of its own,
    and each of them takes `_playback_lock` once, so that a step is a whole call. Of a position in
    milliseconds the quotient is exact.

        play ───────────────┐                       ┌──▶ the device
        play_notification ──┴──▶ _playback_buffer ──┤
                                                    └──▶ dropped by stop_playback -/

namespace LocalVoice.AudioIO

/-! ### The state -/

inductive Source where
  | notification
  | play (response_id : Option String)
  deriving DecidableEq

/-- A byte of the buffer, with what the code does not hold of it: its number among all that were queued,
    what queued it, for which response then, for which rate it was made, and whether `stop_playback` had
    come by then, with no `arm_for_next_turn` since. -/
structure Item where
  byte : UInt8
  serial : ℕ
  source : Source
  rate : ℕ
  stopped : Bool
  deriving DecidableEq

/-- `stream`: there is an output stream, and whether it was started. The last four are not in the code:
    the bytes that were queued, those that were handed to the device, each with how many had been queued
    at the last `stop_playback` before, that number, and whether the speaker was stopped. -/
structure State where
  buffer : List Item
  stream : Option Bool
  output_sr : ℕ
  source_sr : ℕ
  is_playing : Bool
  discard_playback : Bool
  playback_response_id : Option String
  playback_device_bytes : ℕ
  queued : List Item
  handed : List (Item × ℕ)
  cut : ℕ
  stopped : Bool

def init (output_sr : ℕ) : State :=
  ⟨[], none, output_sr, output_sr, false, false, none, 0, [], [], 0, false⟩

/-! ### The methods -/

/-- What the device does when its stream is opened: its rate, zero where the query tells none, and whether
    the stream can be made, and started. -/
structure Device where
  rate : ℕ
  made : Bool
  started : Bool

namespace State
variable (c : State)

/-- `_ensure_output`, and whether it returns. -/
def ensure_output (d : Device) : State × Bool :=
  match c.stream with
  | some _ => (c, true)
  | none =>
    let c := { c with output_sr := if 0 < d.rate then d.rate else c.output_sr }
    if d.made then ({ c with stream := some d.started }, d.started) else (c, false)

/-- Bytes at the end of the buffer. -/
def extend (pcm : List UInt8) (source : Source) : State :=
  let items := pcm.mapIdx fun i byte => ⟨byte, c.queued.length + i, source, c.output_sr, c.stopped⟩
  { c with buffer := c.buffer ++ items, queued := c.queued ++ items }

/-- `play`, where `resample` may raise. -/
def play (resample : List UInt8 → ℕ → ℕ → Option (List UInt8)) (pcm : List UInt8) (d : Device) : State :=
  if c.discard_playback then c
  else
    let (c, opened) := c.ensure_output d
    if opened then
      let c := { c with is_playing := true }
      let pcm? :=
        if c.source_sr ≠ c.output_sr ∧ pcm ≠ [] then resample pcm c.source_sr c.output_sr else some pcm
      match pcm? with
      | some pcm => c.extend pcm (.play c.playback_response_id)
      | none => c
    else c

def play_notification (pcm : List UInt8) (d : Device) : State :=
  let (c, opened) := c.ensure_output d
  if opened then c.extend pcm .notification else c

def begin_response_playback (response_id : String) : State :=
  { c with playback_response_id := some response_id, playback_device_bytes := 0 }

def mark_playback_done : State := { c with is_playing := false }

def stop_playback : State :=
  { c with
    buffer := [], is_playing := false, discard_playback := true
    cut := c.queued.length, stopped := true }

def arm_for_next_turn : State := { c with discard_playback := false, stopped := false }

def set_output_sample_rate (sr : ℕ) : State := { c with source_sr := sr }

/-- What `_reopen_streams` and `_reset_portaudio_library` do to the output. -/
def reopen_streams : State := { c with stream := none }

/-- `_output_callback` for a block of `needed` bytes; the rest of the block is silence. -/
def output_callback (needed : ℕ) : State :=
  let n := min needed c.buffer.length
  { c with
    buffer := c.buffer.drop n
    playback_device_bytes :=
      if c.playback_response_id.isSome then c.playback_device_bytes + n else c.playback_device_bytes
    handed := c.handed ++ (c.buffer.take n).map (·, c.cut) }

/-- `playback_position_ms`; no identifier, or an empty one, stands for the active response. -/
def playback_position_ms (response_id : Option String) : ℕ :=
  if response_id.getD "" ≠ "" ∧ response_id ≠ c.playback_response_id then 0
  else c.playback_device_bytes * 1000 / (2 * max 1 c.output_sr)

end State

/-! ### Runs -/

inductive Label where
  | play (pcm : List UInt8) (d : Device)
  | play_notification (pcm : List UInt8) (d : Device)
  | begin_response_playback (response_id : String)
  | mark_playback_done
  | stop_playback
  | arm_for_next_turn
  | set_output_sample_rate (sr : ℕ)
  | reopen_streams
  | output_callback (needed : ℕ)

/-- The callback comes only from a stream that was started. -/
def State.next (resample : List UInt8 → ℕ → ℕ → Option (List UInt8)) (c : State) : Label → Option State
  | .play pcm d => some (c.play resample pcm d)
  | .play_notification pcm d => some (c.play_notification pcm d)
  | .begin_response_playback response_id => some (c.begin_response_playback response_id)
  | .mark_playback_done => some c.mark_playback_done
  | .stop_playback => some c.stop_playback
  | .arm_for_next_turn => some c.arm_for_next_turn
  | .set_output_sample_rate sr => some (c.set_output_sample_rate sr)
  | .reopen_streams => some c.reopen_streams
  | .output_callback needed => if c.stream = some true then some (c.output_callback needed) else none

def step (resample : List UInt8 → ℕ → ℕ → Option (List UInt8)) (c : State) (a : Label) (c' : State) : Prop :=
  c.next resample a = some c'

/-! ### What is heard -/

/-- How long a byte lasts, at the rate it was made for. -/
def Item.ms (x : Item) : ℚ := 1000 / (2 * (max 1 x.rate : ℕ))

def duration : List (Item × ℕ) → ℚ
  | [] => 0
  | x :: xs => x.1.ms + duration xs

namespace State
variable (c : State)

/-- The response that `playback_position_ms` is asked about. -/
def asked (response_id : Option String) : Option String :=
  if response_id.getD "" = "" then c.playback_response_id else response_id

/-- What was handed to the device of the PCM that was played for a response. -/
def own (response_id : Option String) : List (Item × ℕ) :=
  c.handed.filter fun x => x.1.source = .play response_id

/-- The bytes handed to the device are bytes of the queue, in order, each at most once. -/
structure InOrder : Prop where
  bytes : (c.handed.map Prod.fst).Sublist c.queued
  serials : (c.handed.map fun x => x.1.serial).Pairwise (· < ·)

/-- No byte that was queued before a `stop_playback` is handed to the device after it, and none that
    `play` queued between it and the next `arm_for_next_turn`. -/
def Silent : Prop :=
  ∀ x ∈ c.handed, x.2 ≤ x.1.serial ∧ (x.1.source ≠ .notification → x.1.stopped = false)

/-- The position is within what was handed to the device of the response. -/
def Accounted : Prop :=
  ∀ r, (c.playback_position_ms r : ℚ) ≤ duration (c.own (c.asked r))

end State

variable {resample : List UInt8 → ℕ → ℕ → Option (List UInt8)} {c c' : State} {as : List Label}

/-! ### The order of the bytes -/

structure Ordered (c : State) : Prop where
  bytes : (c.handed.map Prod.fst ++ c.buffer).Sublist c.queued
  serials : c.queued.map Item.serial = List.range c.queued.length
  latch : c.stopped = c.discard_playback
  cut : c.cut ≤ c.queued.length
  heard : ∀ x ∈ c.handed, x.2 ≤ x.1.serial ∧ (x.1.source ≠ .notification → x.1.stopped = false)
  held : ∀ x ∈ c.buffer, c.cut ≤ x.serial ∧ (x.source ≠ .notification → x.stopped = false)

/-- Opening the stream changes nothing but the stream and the rate. -/
theorem State.ensure_output_eq (c : State) (d : Device) : ∃ stream sr opened,
    c.ensure_output d = ({ c with stream := stream, output_sr := sr }, opened) := by
  unfold State.ensure_output
  split
  · exact ⟨_, _, _, rfl⟩
  · dsimp only
    split <;> exact ⟨_, _, _, rfl⟩

theorem Ordered.reopened (h : Ordered c) (stream : Option Bool) (sr : ℕ) :
    Ordered { c with stream := stream, output_sr := sr } :=
  ⟨h.bytes, h.serials, h.latch, h.cut, h.heard, h.held⟩

theorem Ordered.extend (h : Ordered c) (pcm : List UInt8) {source : Source}
    (hsource : source ≠ .notification → c.discard_playback = false) :
    Ordered (c.extend pcm source) := by
  refine ⟨?_, ?_, h.latch, ?_, h.heard, ?_⟩
  · simp only [State.extend, ← List.append_assoc]
    exact List.Sublist.append h.bytes (List.Sublist.refl _)
  · simp only [State.extend, List.map_append, h.serials, List.length_append, List.length_mapIdx,
      List.range_add]
    exact congrArg _ (List.ext_getElem (by simp) fun i _ _ => by simp)
  · simpa [State.extend] using Nat.le_add_right_of_le h.cut
  · intro x hx
    rcases List.mem_append.1 hx with hx | hx
    · exact h.held x hx
    · obtain ⟨i, hi, rfl⟩ := List.mem_mapIdx.1 hx
      exact ⟨Nat.le_add_right_of_le h.cut, fun hplay => h.latch.trans (hsource hplay)⟩

theorem Ordered.play (h : Ordered c) (pcm : List UInt8) (d : Device) :
    Ordered (c.play resample pcm d) := by
  unfold State.play
  split
  · exact h
  · next hdiscard =>
    obtain ⟨stream, sr, opened, hopen⟩ := c.ensure_output_eq d
    have hlatch : c.discard_playback = false := by simpa using hdiscard
    have hready : Ordered { c with stream := stream, output_sr := sr, is_playing := true } :=
      ⟨h.bytes, h.serials, h.latch, h.cut, h.heard, h.held⟩
    rw [hopen]
    cases opened with
    | false => exact h.reopened stream sr
    | true =>
      dsimp only
      rw [if_pos rfl]
      split
      · exact hready.extend _ fun _ => hlatch
      · exact hready

theorem Ordered.play_notification (h : Ordered c) (pcm : List UInt8) (d : Device) :
    Ordered (c.play_notification pcm d) := by
  unfold State.play_notification
  obtain ⟨stream, sr, opened, hopen⟩ := c.ensure_output_eq d
  rw [hopen]
  cases opened with
  | false => exact h.reopened stream sr
  | true => exact (h.reopened stream sr).extend pcm fun hne => absurd rfl hne

theorem Ordered.output_callback (h : Ordered c) (needed : ℕ) : Ordered (c.output_callback needed) := by
  have hmap : ∀ l : List Item, (l.map (·, c.cut)).map Prod.fst = l := by
    intro l
    simp [Function.comp_def]
  refine ⟨?_, h.serials, h.latch, h.cut, ?_, fun x hx => h.held x (List.mem_of_mem_drop hx)⟩
  · simp only [State.output_callback, List.map_append, hmap, List.append_assoc, List.take_append_drop]
    exact h.bytes
  · intro x hx
    rcases List.mem_append.1 hx with hx | hx
    · exact h.heard x hx
    · obtain ⟨item, hitem, rfl⟩ := List.mem_map.1 hx
      exact h.held item (List.mem_of_mem_take hitem)

theorem ordered_step {a : Label} (h : Ordered c) (hst : step resample c a c') : Ordered c' := by
  cases a with
  | play pcm d => cases hst; exact h.play pcm d
  | play_notification pcm d => cases hst; exact h.play_notification pcm d
  | begin_response_playback r => cases hst; exact ⟨h.bytes, h.serials, h.latch, h.cut, h.heard, h.held⟩
  | mark_playback_done => cases hst; exact ⟨h.bytes, h.serials, h.latch, h.cut, h.heard, h.held⟩
  | stop_playback =>
    cases hst
    refine ⟨?_, h.serials, rfl, Nat.le_refl _, h.heard, fun x hx => by cases hx⟩
    simpa [State.stop_playback] using (List.sublist_append_left _ _).trans h.bytes
  | arm_for_next_turn => cases hst; exact ⟨h.bytes, h.serials, rfl, h.cut, h.heard, h.held⟩
  | set_output_sample_rate sr => cases hst; exact ⟨h.bytes, h.serials, h.latch, h.cut, h.heard, h.held⟩
  | reopen_streams => cases hst; exact ⟨h.bytes, h.serials, h.latch, h.cut, h.heard, h.held⟩
  | output_callback needed =>
    obtain ⟨-, hst⟩ := Option.ite_none_right_eq_some.1 hst
    cases hst
    exact h.output_callback needed

theorem ordered_init (output_sr : ℕ) : Ordered (init output_sr) :=
  ⟨List.Sublist.refl _, rfl, rfl, Nat.le_refl _, fun _ h => (by cases h), fun _ h => (by cases h)⟩

theorem Ordered.in_order (h : Ordered c) : c.InOrder := by
  have hbytes : (c.handed.map Prod.fst).Sublist c.queued :=
    (List.sublist_append_left _ _).trans h.bytes
  refine ⟨hbytes, ?_⟩
  have hserials := hbytes.map Item.serial
  rw [h.serials, List.map_map] at hserials
  exact List.Pairwise.sublist hserials List.pairwise_lt_range

/-! ### The position -/

/-- A stream may be opened at a rate that is no lower, or when nothing of a response is counted or left. -/
def State.keeps_rate (c : State) (d : Device) : Prop :=
  c.stream = none → d.rate = 0 ∨ c.output_sr ≤ d.rate ∨ c.playback_response_id = none ∨
    c.playback_device_bytes = 0 ∧ c.buffer = []

/-- The rate is kept, a response begins with nothing in the buffer that was not played for it, and no
    notification is played once one has begun. -/
def tracked (c : State) : Label → Prop
  | .play _ d => c.discard_playback = false → c.keeps_rate d
  | .play_notification pcm d => c.keeps_rate d ∧ (c.playback_response_id = none ∨ pcm = [])
  | .begin_response_playback r => ∀ x ∈ c.buffer, x.source = .play (some r)
  | _ => True

instance (c : State) (d : Device) : Decidable (c.keeps_rate d) := inferInstanceAs (Decidable (_ → _))

instance (c : State) : ∀ a, Decidable (tracked c a)
  | .play _ _ => inferInstanceAs (Decidable (_ → _))
  | .play_notification _ _ => inferInstanceAs (Decidable (_ ∧ _))
  | .begin_response_playback _ => inferInstanceAs (Decidable (∀ x ∈ c.buffer, _))
  | .mark_playback_done => isTrue trivial
  | .stop_playback => isTrue trivial
  | .arm_for_next_turn => isTrue trivial
  | .set_output_sample_rate _ => isTrue trivial
  | .reopen_streams => isTrue trivial
  | .output_callback _ => isTrue trivial

/-- The duration of `n` bytes at a rate. -/
def ms_at (n sr : ℕ) : ℚ := n * (1000 / (2 * (max 1 sr : ℕ)))

theorem ms_at_anti (n : ℕ) {sr sr' : ℕ} (h : sr ≤ sr') : ms_at n sr' ≤ ms_at n sr := by
  have hpos : (0 : ℚ) < (max 1 sr : ℕ) := by exact_mod_cast Nat.lt_of_lt_of_le Nat.one_pos (le_max_left _ _)
  have hle : ((max 1 sr : ℕ) : ℚ) ≤ (max 1 sr' : ℕ) := by exact_mod_cast max_le_max_left 1 h
  unfold ms_at
  gcongr

theorem Item.ms_nonneg (x : Item) : 0 ≤ x.ms := by
  unfold Item.ms
  positivity

theorem duration_nonneg (xs : List (Item × ℕ)) : 0 ≤ duration xs := by
  induction xs with
  | nil => exact le_refl _
  | cons x xs ih => exact add_nonneg x.1.ms_nonneg ih

theorem duration_append (xs ys : List (Item × ℕ)) : duration (xs ++ ys) = duration xs + duration ys := by
  induction xs with
  | nil => exact (zero_add _).symm
  | cons x xs ih =>
    rw [List.cons_append, duration, duration, ih]
    ring

/-- Bytes made for a rate that is no higher last at least as long. -/
theorem ms_at_le_duration {sr : ℕ} {xs : List (Item × ℕ)} (h : ∀ x ∈ xs, x.1.rate ≤ sr) :
    ms_at xs.length sr ≤ duration xs := by
  induction xs with
  | nil => simp [ms_at, duration]
  | cons x xs ih =>
    have hx : ms_at 1 sr ≤ ms_at 1 x.1.rate := ms_at_anti 1 (h x List.mem_cons_self)
    have hone : ms_at 1 x.1.rate = x.1.ms := by simp [ms_at, Item.ms]
    calc ms_at (xs.length + 1) sr = ms_at 1 sr + ms_at xs.length sr := by simp only [ms_at]; push_cast; ring
      _ ≤ x.1.ms + duration xs :=
        add_le_add (hone ▸ hx) (ih fun y hy => h y (List.mem_cons_of_mem _ hy))

/-- What is counted, and what may yet be, is of the active response. -/
def Counted (c : State) : Prop :=
  match c.playback_response_id with
  | none => c.playback_device_bytes = 0 ∧ ∀ x ∈ c.buffer, ∀ r, x.source ≠ .play (some r)
  | some r => ms_at c.playback_device_bytes c.output_sr ≤ duration (c.own (some r)) ∧
      ∀ x ∈ c.buffer, x.source = .play (some r) ∧ x.rate ≤ c.output_sr

theorem Counted.before (h : Counted c) (hr : c.playback_response_id = none) :
    c.playback_device_bytes = 0 ∧ ∀ x ∈ c.buffer, ∀ r, x.source ≠ .play (some r) := by
  unfold Counted at h
  rwa [hr] at h

theorem Counted.within {r : String} (h : Counted c) (hr : c.playback_response_id = some r) :
    ms_at c.playback_device_bytes c.output_sr ≤ duration (c.own (some r)) ∧
      ∀ x ∈ c.buffer, x.source = .play (some r) ∧ x.rate ≤ c.output_sr := by
  unfold Counted at h
  rwa [hr] at h

/-- The stream is opened at a rate that may be. -/
theorem Counted.ensure_output (h : Counted c) {d : Device} (hd : c.keeps_rate d) :
    ∃ stream sr opened, c.ensure_output d = ({ c with stream := stream, output_sr := sr }, opened) ∧
      ∀ playing, Counted { c with stream := stream, output_sr := sr, is_playing := playing } := by
  cases hstream : c.stream with
  | some started =>
    have hopen : c.ensure_output d = (c, true) := by
      unfold State.ensure_output
      rw [hstream]
    exact ⟨c.stream, c.output_sr, true, hopen, fun _ => h⟩
  | none =>
    have hsr : ∀ stream playing, Counted { c with
        stream := stream, output_sr := if 0 < d.rate then d.rate else c.output_sr
        is_playing := playing } := by
      intro stream playing
      cases hr : c.playback_response_id with
      | none =>
        have hnone := h.before hr
        unfold Counted
        dsimp only
        exact hnone
      | some r =>
        obtain ⟨hle, hbuffer⟩ := h.within hr
        unfold Counted
        dsimp only
        have hhigher : c.output_sr ≤ (if 0 < d.rate then d.rate else c.output_sr) →
            ms_at c.playback_device_bytes (if 0 < d.rate then d.rate else c.output_sr) ≤
                duration (c.own (some r)) ∧
              ∀ x ∈ c.buffer, x.source = .play (some r) ∧
                x.rate ≤ (if 0 < d.rate then d.rate else c.output_sr) := fun hsr =>
          ⟨(ms_at_anti _ hsr).trans hle, fun x hx => ⟨(hbuffer x hx).1, (hbuffer x hx).2.trans hsr⟩⟩
        rcases hd hstream with hzero | hrate | hno | ⟨hbytes, hempty⟩
        · exact hhigher (by rw [hzero]; exact Nat.le_refl _)
        · refine hhigher ?_
          split
          · exact hrate
          · exact Nat.le_refl _
        · rw [hr] at hno
          cases hno
        · rw [hbytes, hempty]
          refine ⟨?_, fun x hx => by cases hx⟩
          rw [ms_at, Nat.cast_zero, zero_mul]
          exact duration_nonneg _
    unfold State.ensure_output
    rw [hstream]
    dsimp only
    split
    · exact ⟨_, _, _, rfl, hsr _⟩
    · exact ⟨c.stream, _, _, by rw [hstream, ← hstream], hsr _⟩

/-- Bytes are queued for the active response, or before there is one. -/
theorem Counted.extend (h : Counted c) (pcm : List UInt8) {source : Source}
    (hsome : ∀ r, c.playback_response_id = some r → source = .play (some r) ∨ pcm = [])
    (hnone : c.playback_response_id = none → ∀ r, source ≠ .play (some r)) :
    Counted (c.extend pcm source) := by
  have hnew : ∀ x ∈ (c.extend pcm source).buffer, x ∈ c.buffer ∨
      x.source = source ∧ x.rate = c.output_sr ∧ pcm ≠ [] := by
    intro x hx
    rcases List.mem_append.1 hx with hx | hx
    · exact .inl hx
    · obtain ⟨i, hi, rfl⟩ := List.mem_mapIdx.1 hx
      exact .inr ⟨rfl, rfl, List.ne_nil_of_length_pos (Nat.lt_of_le_of_lt (Nat.zero_le i) hi)⟩
  cases hr : c.playback_response_id with
  | none =>
    have hr' : (c.extend pcm source).playback_response_id = none := hr
    obtain ⟨hbytes, hbuffer⟩ := h.before hr
    unfold Counted
    rw [hr']
    refine ⟨hbytes, fun x hx => ?_⟩
    rcases hnew x hx with hx | ⟨hx, -, -⟩
    · exact hbuffer x hx
    · exact hx ▸ hnone hr
  | some r =>
    have hr' : (c.extend pcm source).playback_response_id = some r := hr
    obtain ⟨hle, hbuffer⟩ := h.within hr
    unfold Counted
    rw [hr']
    refine ⟨hle, fun x hx => ?_⟩
    rcases hnew x hx with hx | ⟨hx, hrate, hpcm⟩
    · exact hbuffer x hx
    · exact ⟨hx.trans ((hsome r hr).resolve_right hpcm), Nat.le_of_eq hrate⟩

theorem Counted.play (h : Counted c) (pcm : List UInt8) {d : Device}
    (hd : c.discard_playback = false → c.keeps_rate d) : Counted (c.play resample pcm d) := by
  unfold State.play
  split
  · exact h
  · next hdiscard =>
    obtain ⟨stream, sr, opened, hopen, hcounted⟩ := h.ensure_output (hd (by simpa using hdiscard))
    rw [hopen]
    cases opened with
    | false => exact hcounted c.is_playing
    | true =>
      dsimp only
      rw [if_pos rfl]
      split
      · refine (hcounted true).extend _ (fun r hr => ?_) fun hr r => ?_
        · exact .inl (congrArg Source.play hr)
        · intro heq
          rw [Source.play.inj heq] at hr
          cases hr
      · exact hcounted true

theorem Counted.play_notification (h : Counted c) {pcm : List UInt8} {d : Device}
    (hd : c.keeps_rate d ∧ (c.playback_response_id = none ∨ pcm = [])) :
    Counted (c.play_notification pcm d) := by
  unfold State.play_notification
  obtain ⟨stream, sr, opened, hopen, hcounted⟩ := h.ensure_output hd.1
  rw [hopen]
  cases opened with
  | false => exact hcounted c.is_playing
  | true =>
    refine (hcounted c.is_playing).extend pcm (fun r hr => ?_) fun _ r heq => by cases heq
    rcases hd.2 with hno | hempty
    · rw [hno] at hr
      cases hr
    · exact .inr hempty

/-- What the callback counts it hands over, of the active response. -/
theorem Counted.output_callback (h : Counted c) (needed : ℕ) : Counted (c.output_callback needed) := by
  cases hr : c.playback_response_id with
  | none =>
    have hr' : (c.output_callback needed).playback_response_id = none := hr
    obtain ⟨hbytes, hbuffer⟩ := h.before hr
    unfold Counted
    rw [hr']
    refine ⟨?_, fun x hx => hbuffer x (List.mem_of_mem_drop hx)⟩
    simp [State.output_callback, hr, hbytes]
  | some r =>
    have hr' : (c.output_callback needed).playback_response_id = some r := hr
    obtain ⟨hle, hbuffer⟩ := h.within hr
    unfold Counted
    rw [hr']
    refine ⟨?_, fun x hx => hbuffer x (List.mem_of_mem_drop hx)⟩
    have hown : ∀ x ∈ (c.buffer.take (min needed c.buffer.length)).map (·, c.cut),
        x.1.source = .play (some r) ∧ x.1.rate ≤ c.output_sr := by
      intro x hx
      obtain ⟨item, hitem, rfl⟩ := List.mem_map.1 hx
      exact hbuffer item (List.mem_of_mem_take hitem)
    have hfilter : (c.output_callback needed).own (some r) =
        c.own (some r) ++ (c.buffer.take (min needed c.buffer.length)).map (·, c.cut) := by
      simp only [State.own, State.output_callback, List.filter_append]
      congr 1
      exact List.filter_eq_self.2 fun x hx => decide_eq_true (hown x hx).1
    have hlast := ms_at_le_duration fun x hx => (hown x hx).2
    rw [hfilter, duration_append]
    calc ms_at (c.output_callback needed).playback_device_bytes c.output_sr
        = ms_at c.playback_device_bytes c.output_sr +
            ms_at (min needed c.buffer.length) c.output_sr := by
          simp only [State.output_callback, hr, Option.isSome_some, if_true, ms_at]
          push_cast
          ring
      _ ≤ _ := add_le_add hle (by simpa using hlast)

theorem counted_step {a : Label} (h : Counted c) (hst : Lib.restrict tracked (step resample) c a c') :
    Counted c' := by
  obtain ⟨hok, hst⟩ := hst
  cases a with
  | play pcm d => cases hst; exact h.play pcm hok
  | play_notification pcm d => cases hst; exact h.play_notification hok
  | begin_response_playback r =>
    cases hst
    refine ⟨?_, fun x hx => ⟨hok x hx, ?_⟩⟩
    · rw [show (c.begin_response_playback r).playback_device_bytes = 0 from rfl, ms_at, Nat.cast_zero,
        zero_mul]
      exact duration_nonneg _
    · -- what is left was played for the response that was active, and made for its rate
      cases hr : c.playback_response_id with
      | none => exact absurd (hok x hx) ((h.before hr).2 x hx r)
      | some r' => exact ((h.within hr).2 x hx).2
  | mark_playback_done => cases hst; exact h
  | stop_playback =>
    cases hst
    cases hr : c.playback_response_id with
    | none =>
      have hr' : c.stop_playback.playback_response_id = none := hr
      unfold Counted
      rw [hr']
      exact ⟨(h.before hr).1, fun x hx => by cases hx⟩
    | some r =>
      have hr' : c.stop_playback.playback_response_id = some r := hr
      unfold Counted
      rw [hr']
      exact ⟨(h.within hr).1, fun x hx => by cases hx⟩
  | arm_for_next_turn => cases hst; exact h
  | set_output_sample_rate sr => cases hst; exact h
  | reopen_streams => cases hst; exact h
  | output_callback needed =>
    obtain ⟨-, hst⟩ := Option.ite_none_right_eq_some.1 hst
    cases hst
    exact h.output_callback needed

theorem Counted.accounted (h : Counted c) : c.Accounted := by
  intro r
  unfold State.playback_position_ms
  split
  · rw [Nat.cast_zero]
    exact duration_nonneg _
  · next hactive =>
    have hasked : c.asked r = c.playback_response_id := by
      unfold State.asked
      split
      · rfl
      · next hgiven => exact not_not.1 fun hne => hactive ⟨hgiven, hne⟩
    have hfloor : ((c.playback_device_bytes * 1000 / (2 * max 1 c.output_sr) : ℕ) : ℚ) ≤
        ms_at c.playback_device_bytes c.output_sr := by
      refine Nat.cast_div_le.trans (le_of_eq ?_)
      rw [ms_at]
      push_cast
      ring
    rw [hasked]
    cases hr : c.playback_response_id with
    | none =>
      rw [(h.before hr).1, Nat.zero_mul, Nat.zero_div, Nat.cast_zero]
      exact duration_nonneg _
    | some r => exact hfloor.trans (h.within hr).1

/-! ### Runs -/

/-- In every run the device gets the bytes that were queued, in order and each at most once, and nothing
    that was stopped; and where each response begins with an empty buffer, no notification is played after
    the first has begun and the rate does not fall, the position is within what was handed over. -/
theorem playback_accounted (resample : List UInt8 → ℕ → ℕ → Option (List UInt8)) (output_sr : ℕ)
    (as : List Label) (c : State) :
    (Lib.Run (step resample) (init output_sr) as c → c.InOrder ∧ c.Silent) ∧
      (Lib.Run (Lib.restrict tracked (step resample)) (init output_sr) as c → c.Accounted) := by
  constructor
  · intro h
    have hc : Ordered c := h.invariant (I := Ordered) (fun hs hst => ordered_step hs hst) (ordered_init _)
    exact ⟨hc.in_order, hc.heard⟩
  · intro h
    have hinit : Counted (init output_sr) := ⟨rfl, fun x hx => by cases hx⟩
    have hc : Counted c := h.invariant (I := Counted) (fun hs hst => counted_step hs hst) hinit
    exact hc.accounted

/-- A response is stopped after its first millisecond. -/
theorem playback_accounted_stopped : ∃ as c,
    Lib.Run (Lib.restrict tracked (step fun pcm _ _ => some pcm)) (init 8000) as c ∧
      (c.InOrder ∧ c.Silent) ∧ c.Accounted ∧ c.playback_position_ms (some "resp_1") = 1 := by
  have hreplay : (Lib.replay
      (fun c a => if tracked c a then State.next (fun pcm _ _ => some pcm) c a else none) (init 8000)
      [.begin_response_playback "resp_1", .play (List.replicate 20 0) ⟨8000, true, true⟩,
        .output_callback 16, .stop_playback, .play [0] ⟨8000, true, true⟩, .output_callback 16]).any
      (fun c => c.playback_position_ms (some "resp_1") = 1) = true := by decide
  obtain ⟨c, hc, hends⟩ := Lib.Run.of_replay_any _ _ _ _ hreplay
  have hrun := Lib.Run.restrict_mono hc
  refine ⟨_, c, hrun, ?_, ?_, of_decide_eq_true hends⟩
  · exact (playback_accounted _ 8000 _ c).1 (hrun.mono fun hst => hst.2)
  · exact (playback_accounted _ 8000 _ c).2 hrun

/-- A millisecond of one response is still in the buffer when the next one begins. -/
theorem earlier_response_counted : ∃ as c,
    Lib.Run (step fun pcm _ _ => some pcm) (init 8000) as c ∧ ¬ c.Accounted := by
  have hrun : (Lib.replay (State.next fun pcm _ _ => some pcm) (init 8000)
      [.begin_response_playback "resp_1", .play (List.replicate 16 0) ⟨8000, true, true⟩,
        .begin_response_playback "resp_2", .output_callback 16]).any
      (fun c => c.playback_position_ms (some "resp_2") = 1 ∧ c.own (c.asked (some "resp_2")) = []) = true := by
    decide
  obtain ⟨c, hc, hends⟩ := Lib.Run.of_replay_any _ _ _ _ hrun
  obtain ⟨hposition, hown⟩ := of_decide_eq_true hends
  refine ⟨_, c, hc, fun hacc => ?_⟩
  have hle := hacc (some "resp_2")
  rw [hposition, hown] at hle
  exact absurd hle (by norm_num [duration])

end LocalVoice.AudioIO
