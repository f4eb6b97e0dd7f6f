import LocalVoice.Lib.Streak
import Mathlib.Data.List.DropRight

/-! `vad_gated` of `agent/ovs_agent/audio/vad_gate.py`: utterances are cut out of a stream of chunks by
    the verdicts of a client VAD. While it is idle the last chunks stay in a ring, which is replayed
    when an unbroken run of speech totals `min_speech_ms`; from there each chunk is passed on, until
    a run of silence totals `silence_ms`.

        idle ──run of speech: speech_start, the ring──▶ speech: every chunk
             ◀──run of silence: speech_end───────────── -/

namespace LocalVoice.VadGate
open LocalVoice.Lib

structure Config where
  chunk_ms : ℤ
  preroll_ms : ℤ
  silence_ms : ℤ
  min_speech_ms : ℤ

/-- `round(a / b)` of a positive `b`: to the nearest integer, a tie to the even one. -/
def round_div (a b : ℤ) : ℤ :=
  if 2 * (a % b) < b then a / b
  else if b < 2 * (a % b) then a / b + 1
  else if a / b % 2 = 0 then a / b else a / b + 1

/-- The duration of a chunk, which is at least one millisecond. -/
def Config.chunk (cfg : Config) : ℤ := max 1 cfg.chunk_ms

def Config.preroll_max (cfg : Config) : ℕ := (max 1 (round_div cfg.preroll_ms cfg.chunk)).toNat

inductive Event (α : Type*) where
  | speech_start
  | audio (pcm : α)
  | speech_end
  deriving DecidableEq

structure Gate (α : Type*) where
  speaking : Bool
  speech_acc_ms : ℤ
  silence_acc_ms : ℤ
  preroll : List α
  deriving DecidableEq

section
variable {α : Type*}

def Gate.init : Gate α := ⟨false, 0, 0, []⟩

/-- `append` to a `deque` with a `maxlen`. -/
def append (maxlen : ℕ) (ring : List α) (chunk : α) : List α := (ring ++ [chunk]).rtake maxlen

/-- A chunk, and the verdict on it; without one `is_speech` raises, which counts as silence. -/
def Gate.step (cfg : Config) (g : Gate α) (chunk : α) (verdict : Option Bool) : Gate α × List (Event α) :=
  let is_speech := verdict.getD false
  match g.speaking, is_speech with
  | false, true =>
    let acc := g.speech_acc_ms + cfg.chunk
    let ring := append cfg.preroll_max g.preroll chunk
    if cfg.min_speech_ms ≤ acc then (⟨true, acc, 0, []⟩, .speech_start :: ring.map .audio)
    else ({ g with speech_acc_ms := acc, preroll := ring }, [])
  | false, false => ({ g with speech_acc_ms := 0, preroll := append cfg.preroll_max g.preroll chunk }, [])
  | true, true => ({ g with silence_acc_ms := 0 }, [.audio chunk])
  | true, false =>
    let acc := g.silence_acc_ms + cfg.chunk
    if cfg.silence_ms ≤ acc then (⟨false, 0, 0, []⟩, [.audio chunk, .speech_end])
    else ({ g with silence_acc_ms := acc }, [.audio chunk])

/-- The gate after these chunks, and the events so far. -/
def run (cfg : Config) (xs : List (α × Option Bool)) : Gate α × List (Event α) :=
  xs.foldl (fun r x => ((r.1.step cfg x.1 x.2).1, r.2 ++ (r.1.step cfg x.1 x.2).2)) (.init, [])

def vad_gated (cfg : Config) (xs : List (α × Option Bool)) : List (Event α) := (run cfg xs).2

/-! ### Utterances -/

/-- The chunk at this place is speech. -/
def heard (xs : List (α × Option Bool)) (i : ℕ) : Prop := ∃ x, xs[i]? = some x ∧ x.2 = some true

/-- The chunks from `a` on, before `b`. -/
def slice (xs : List (α × Option Bool)) (a b : ℕ) : List α := ((xs.take b).drop a).map Prod.fst

/-- The places of the first chunk, of the one that confirmed the onset, and of the last. -/
structure Utterance where
  first : ℕ
  onset : ℕ
  last : ℕ
  ended : Bool
  deriving DecidableEq

def Utterance.events (xs : List (α × Option Bool)) (u : Utterance) : List (Event α) :=
  .speech_start :: (slice xs u.first (u.last + 1)).map .audio ++ if u.ended then [.speech_end] else []

/-- The utterances in the chunks from `lo` on. Each is confirmed at the first chunk at which a run of
    speech totals `min_speech_ms`, ends with the first at which a run of silence totals `silence_ms`,
    and begins where `first` says; at most the last one is unfinished. -/
def Segments (cfg : Config) (xs : List (α × Option Bool)) (first : ℕ → Utterance → Prop) :
    ℕ → List Utterance → Prop
  | lo, [] => ∀ i, lo ≤ i → i < xs.length → ¬ Totals (heard xs) cfg.chunk cfg.min_speech_ms lo i
  | lo, u :: us => FirstTotals (heard xs) cfg.chunk cfg.min_speech_ms lo u.onset ∧ first lo u ∧
    if u.ended then u.last < xs.length ∧
      FirstTotals (fun i => ¬ heard xs i) cfg.chunk cfg.silence_ms (u.onset + 1) u.last ∧
      Segments cfg xs first (u.last + 1) us
    else u.onset ≤ u.last ∧ u.last + 1 = xs.length ∧ us = [] ∧ ∀ i, u.onset + 1 ≤ i → i < xs.length →
      ¬ Totals (fun i => ¬ heard xs i) cfg.chunk cfg.silence_ms (u.onset + 1) i

/-- Where the ring puts the first chunk. -/
def replayed (cfg : Config) (lo : ℕ) (u : Utterance) : Prop :=
  u.first = max lo (u.onset + 1 - cfg.preroll_max)

/-- The utterance holds the whole run of speech that confirmed it. -/
def whole_burst (xs : List (α × Option Bool)) (lo : ℕ) (u : Utterance) : Prop :=
  lo ≤ u.first ∧ u.first ≤ u.onset ∧
    ∀ b, lo ≤ b → (∀ j, b ≤ j → j ≤ u.onset → heard xs j) → u.first ≤ b

/-- The events are those of utterances that lose nothing. -/
def Lossless (cfg : Config) (xs : List (α × Option Bool)) : Prop := ∃ us : List Utterance,
  vad_gated cfg xs = us.flatMap (Utterance.events xs) ∧ Segments cfg xs (whole_burst xs) 0 us

/-! ### One chunk -/

variable {cfg : Config} {xs : List (α × Option Bool)} {lo k : ℕ} {x : α × Option Bool}

theorem chunk_pos : 0 < cfg.chunk := Int.lt_of_lt_of_le Int.one_pos (Int.le_max_left _ _)

theorem preroll_max_pos : 0 < cfg.preroll_max := by
  unfold Config.preroll_max
  omega

theorem append_rtake (l : List α) (n : ℕ) (c : α) : append n (l.rtake n) c = (l ++ [c]).rtake n := by
  cases n with
  | zero => simp [append]
  | succ n =>
    have hshort : (l.rtake (n + 1)).rtake n = l.rtake n := by
      unfold List.rtake
      rw [List.drop_drop, List.length_drop]
      congr 1
      omega
    unfold append
    rw [List.rtake_concat_succ, List.rtake_concat_succ, hshort]

theorem slice_succ (hx : xs[k]? = some x) {a : ℕ} (ha : a ≤ k) :
    slice xs a (k + 1) = slice xs a k ++ [x.1] := by
  obtain ⟨hk, rfl⟩ := List.getElem?_eq_some_iff.1 hx
  unfold slice
  rw [List.take_succ_eq_append_getElem hk,
    List.drop_append_of_le_length (by rw [List.length_take]; omega), List.map_append]
  rfl

theorem slice_self (a : ℕ) : slice xs a a = [] := by
  unfold slice
  rw [List.drop_eq_nil_of_le (List.length_take_le a _)]
  rfl

theorem slice_rtake (hk : k ≤ xs.length) (n : ℕ) :
    (slice xs lo k).rtake n = slice xs (max lo (k - n)) k := by
  unfold slice List.rtake
  rw [← List.map_drop, List.drop_drop]
  congr 2
  simp
  omega

theorem heard_iff (hx : xs[k]? = some x) : heard xs k ↔ x.2.getD false = true := by
  obtain ⟨c, verdict⟩ := x
  simp only [heard, hx, Option.some.injEq, exists_eq_left']
  cases verdict <;> simp

/-- The gate after `k` chunks: idle since `lo`, or in an utterance that is not finished. The utterances
    before it are `us`, whatever comes. -/
inductive Inv (cfg : Config) (xs : List (α × Option Bool)) (k : ℕ) : Gate α → List (Event α) → Prop where
  | idle (us : List Utterance) (lo m : ℕ)
      (hrest : ∀ vs, Segments cfg xs (replayed cfg) lo vs → Segments cfg xs (replayed cfg) 0 (us ++ vs))
      (hstreak : Streak (heard xs) lo k m)
      (hnone : ∀ i, lo ≤ i → i < k → ¬ Totals (heard xs) cfg.chunk cfg.min_speech_ms lo i) :
      Inv cfg xs k ⟨false, cfg.chunk * m, 0, (slice xs lo k).rtake cfg.preroll_max⟩
        (us.flatMap (Utterance.events xs))
  | speaking (us : List Utterance) (lo onset m : ℕ) (acc : ℤ)
      (hrest : ∀ vs, Segments cfg xs (replayed cfg) lo vs → Segments cfg xs (replayed cfg) 0 (us ++ vs))
      (hfirst : FirstTotals (heard xs) cfg.chunk cfg.min_speech_ms lo onset)
      (hstreak : Streak (fun i => ¬ heard xs i) (onset + 1) k m)
      (hnone : ∀ i, onset + 1 ≤ i → i < k →
        ¬ Totals (fun i => ¬ heard xs i) cfg.chunk cfg.silence_ms (onset + 1) i) :
      Inv cfg xs k ⟨true, acc, cfg.chunk * m, []⟩ (us.flatMap (Utterance.events xs) ++
        .speech_start :: (slice xs (max lo (onset + 1 - cfg.preroll_max)) k).map .audio)

theorem inv_nil : Inv cfg xs 0 Gate.init [] := by
  have h : Inv cfg xs 0 _ _ :=
    .idle [] 0 0 (fun _ h => h) streak_nil fun _ _ h => absurd h (Nat.not_lt_zero _)
  simpa [slice_self, Gate.init] using h

/-- What does not hold up to `k` and at `k` does not hold up to `k + 1`. -/
theorem none_succ {P : ℕ → Prop} (h : ∀ i, lo ≤ i → i < k → ¬ P i) (hk : ¬ P k) :
    ∀ i, lo ≤ i → i < k + 1 → ¬ P i := by
  intro i hlo hlt
  rcases Nat.lt_succ_iff_lt_or_eq.1 hlt with hlt | rfl
  · exact h i hlo hlt
  · exact hk

/-- The next chunk while the gate is idle. -/
theorem inv_idle (hx : xs[k]? = some x) (us : List Utterance) (lo m : ℕ)
    (hrest : ∀ vs, Segments cfg xs (replayed cfg) lo vs → Segments cfg xs (replayed cfg) 0 (us ++ vs))
    (hstreak : Streak (heard xs) lo k m)
    (hnone : ∀ i, lo ≤ i → i < k → ¬ Totals (heard xs) cfg.chunk cfg.min_speech_ms lo i) :
    let g : Gate α := ⟨false, cfg.chunk * m, 0, (slice xs lo k).rtake cfg.preroll_max⟩
    Inv cfg xs (k + 1) (g.step cfg x.1 x.2).1
      (us.flatMap (Utterance.events xs) ++ (g.step cfg x.1 x.2).2) := by
  have hlo : lo ≤ k := Nat.le_trans (Nat.le_add_right _ _) hstreak.within
  have hk : k < xs.length := (List.getElem?_eq_some_iff.1 hx).1
  have hring : append cfg.preroll_max ((slice xs lo k).rtake cfg.preroll_max) x.1 =
      (slice xs lo (k + 1)).rtake cfg.preroll_max := by
    rw [append_rtake, slice_succ hx hlo]
  cases hverdict : x.2.getD false with
  | false =>
    have hquiet : ¬ heard xs k := by
      rw [heard_iff hx, hverdict]
      exact Bool.false_ne_true
    have hnext := none_succ hnone fun htotal => hquiet htotal.holds
    simpa [Gate.step, hverdict, hring] using Inv.idle us lo 0 hrest (streak_broken hlo hquiet) hnext
  | true =>
    have hspeech : heard xs k := (heard_iff hx).2 hverdict
    have htotals : Totals _ cfg.chunk cfg.min_speech_ms _ _ ↔ _ := hstreak.totals_iff chunk_pos hspeech
    have hacc : cfg.chunk * m + cfg.chunk = cfg.chunk * (m + 1) := by
      rw [Int.mul_add, Int.mul_one]
    by_cases hreach : cfg.min_speech_ms ≤ cfg.chunk * (m + 1)
    · have hfirst : FirstTotals (heard xs) cfg.chunk cfg.min_speech_ms lo k :=
        ⟨htotals.2 hreach, hnone⟩
      have hin : Inv cfg xs (k + 1) _ _ := .speaking us lo k 0 (cfg.chunk * (m + 1)) hrest hfirst streak_nil
        fun i hle hlt => absurd hlt (by omega)
      simpa [Gate.step, hverdict, hring, hacc, hreach, slice_rtake (Nat.succ_le_of_lt hk)] using hin
    · have hnext := none_succ hnone fun htotal => hreach (htotals.1 htotal)
      have hin := Inv.idle us lo (m + 1) hrest (hstreak.extend hspeech) hnext
      simpa [Gate.step, hverdict, hring, hacc, hreach] using hin

/-- The next chunk of an utterance. -/
theorem inv_speaking (hx : xs[k]? = some x) (us : List Utterance) (lo onset m : ℕ) (acc : ℤ)
    (hrest : ∀ vs, Segments cfg xs (replayed cfg) lo vs → Segments cfg xs (replayed cfg) 0 (us ++ vs))
    (hfirst : FirstTotals (heard xs) cfg.chunk cfg.min_speech_ms lo onset)
    (hstreak : Streak (fun i => ¬ heard xs i) (onset + 1) k m)
    (hnone : ∀ i, onset + 1 ≤ i → i < k →
      ¬ Totals (fun i => ¬ heard xs i) cfg.chunk cfg.silence_ms (onset + 1) i) :
    let g : Gate α := ⟨true, acc, cfg.chunk * m, []⟩
    let start := max lo (onset + 1 - cfg.preroll_max)
    Inv cfg xs (k + 1) (g.step cfg x.1 x.2).1 (us.flatMap (Utterance.events xs) ++
      .speech_start :: (slice xs start k).map .audio ++ (g.step cfg x.1 x.2).2) := by
  intro g start
  have hk : k < xs.length := (List.getElem?_eq_some_iff.1 hx).1
  have honset : onset + 1 ≤ k := Nat.le_trans (Nat.le_add_right _ _) hstreak.within
  have hlo : lo ≤ onset := hfirst.totals.le
  have hstart : start ≤ k := by omega
  have hslice := slice_succ hx hstart
  cases hverdict : x.2.getD false with
  | true =>
    have hspeech : ¬ ¬ heard xs k := not_not.2 ((heard_iff hx).2 hverdict)
    have hnext := none_succ hnone fun htotal => hspeech htotal.holds
    have hin := Inv.speaking us lo onset 0 acc hrest hfirst (streak_broken honset hspeech) hnext
    simpa [Gate.step, g, start, hverdict, hslice] using hin
  | false =>
    have hquiet : ¬ heard xs k := by
      rw [heard_iff hx, hverdict]
      exact Bool.false_ne_true
    have htotals : Totals _ cfg.chunk cfg.silence_ms _ _ ↔ _ := hstreak.totals_iff chunk_pos hquiet
    have hacc : cfg.chunk * m + cfg.chunk = cfg.chunk * (m + 1) := by
      rw [Int.mul_add, Int.mul_one]
    by_cases hreach : cfg.silence_ms ≤ cfg.chunk * (m + 1)
    · -- the utterance is finished, and the gate idle again from the next chunk on
      have hlast : FirstTotals (fun i => ¬ heard xs i) cfg.chunk cfg.silence_ms (onset + 1) k :=
        ⟨htotals.2 hreach, hnone⟩
      have hrest' : ∀ vs, Segments cfg xs (replayed cfg) (k + 1) vs →
          Segments cfg xs (replayed cfg) 0 (us ++ [⟨start, onset, k, true⟩] ++ vs) := by
        intro vs hvs
        rw [List.append_assoc]
        exact hrest _ ⟨hfirst, rfl, by simpa using ⟨hk, hlast, hvs⟩⟩
      have hin : Inv cfg xs (k + 1) _ _ := .idle (us ++ [⟨start, onset, k, true⟩]) (k + 1) 0 hrest' streak_nil
        fun i hle hlt => absurd hlt (by omega)
      simpa [Gate.step, g, hverdict, hacc, hreach, hslice, slice_self, Utterance.events] using hin
    · have hnext := none_succ hnone fun htotal => hreach (htotals.1 htotal)
      have hin := Inv.speaking us lo onset (m + 1) acc hrest hfirst (hstreak.extend hquiet) hnext
      simpa [Gate.step, g, start, hverdict, hreach, hslice, hacc] using hin

theorem inv_run (hk : k ≤ xs.length) :
    Inv cfg xs k (run cfg (xs.take k)).1 (run cfg (xs.take k)).2 := by
  induction k with
  | zero => exact inv_nil
  | succ k ih =>
    have hx : xs[k]? = some xs[k] := List.getElem?_eq_getElem hk
    have hrun : run cfg (xs.take (k + 1)) = (((run cfg (xs.take k)).1.step cfg xs[k].1 xs[k].2).1,
        (run cfg (xs.take k)).2 ++ ((run cfg (xs.take k)).1.step cfg xs[k].1 xs[k].2).2) := by
      rw [List.take_succ_eq_append_getElem hk]
      unfold run
      rw [List.foldl_append]
      rfl
    have hin := ih (Nat.le_of_succ_le hk)
    rw [hrun]
    generalize (run cfg (xs.take k)).1 = g at hin
    generalize (run cfg (xs.take k)).2 = evs at hin
    cases hin with
    | idle us lo m hrest hstreak hnone => exact inv_idle hx us lo m hrest hstreak hnone
    | speaking us lo onset m acc hrest hfirst hstreak hnone =>
      exact inv_speaking hx us lo onset m acc hrest hfirst hstreak hnone

/-- The events are those of utterances that begin where the ring has them begin. -/
theorem gated_segments (cfg : Config) (xs : List (α × Option Bool)) : ∃ us : List Utterance,
    vad_gated cfg xs = us.flatMap (Utterance.events xs) ∧ Segments cfg xs (replayed cfg) 0 us := by
  have hin : Inv cfg xs xs.length _ _ := inv_run (Nat.le_refl _)
  rw [List.take_length] at hin
  unfold vad_gated
  generalize (run cfg xs).1 = g at hin
  generalize (run cfg xs).2 = evs at hin
  cases hin with
  | idle us lo m hrest hstreak hnone => exact ⟨us, rfl, by simpa using hrest [] hnone⟩
  | speaking us lo onset m acc hrest hfirst hstreak hnone =>
    have honset : onset + 1 ≤ xs.length := Nat.le_trans (Nat.le_add_right _ _) hstreak.within
    refine ⟨us ++ [⟨max lo (onset + 1 - cfg.preroll_max), onset, xs.length - 1, false⟩], ?_, ?_⟩
    · simp [Utterance.events, Nat.sub_add_cancel (Nat.le_trans (Nat.le_add_left 1 onset) honset)]
    · refine hrest _ ⟨hfirst, rfl, ?_⟩
      rw [if_neg Bool.false_ne_true]
      exact ⟨Nat.le_sub_one_of_lt honset, Nat.sub_add_cancel (by omega), rfl, hnone⟩

/-! ### What the ring holds -/

variable {P Q : ℕ → Utterance → Prop} {us vs : List Utterance} {u v : Utterance}

theorem Segments.mono (hle : ∀ lo u, FirstTotals (heard xs) cfg.chunk cfg.min_speech_ms lo u.onset → P lo u →
    Q lo u) (h : Segments cfg xs P lo us) : Segments cfg xs Q lo us := by
  induction us generalizing lo with
  | nil => exact h
  | cons u us ih =>
    obtain ⟨hfirst, hp, hrest⟩ := h
    refine ⟨hfirst, hle lo u hfirst hp, ?_⟩
    split at hrest
    · next hended =>
      rw [if_pos hended]
      exact ⟨hrest.1, hrest.2.1, ih hrest.2.2⟩
    · next hended => rwa [if_neg hended]

/-- The places of the first utterance. -/
theorem Segments.head (h : Segments cfg xs P lo (u :: us)) : u.onset ≤ u.last ∧ u.last < xs.length := by
  obtain ⟨-, -, hrest⟩ := h
  split at hrest
  · exact ⟨Nat.le_of_succ_le hrest.2.1.totals.le, hrest.1⟩
  · exact ⟨hrest.1, Nat.lt_of_succ_le (Nat.le_of_eq hrest.2.1)⟩

/-- Where the first utterance is confirmed and where it ends is a matter of the verdicts alone. -/
theorem Segments.head_unique (h : Segments cfg xs P lo (u :: us)) (h' : Segments cfg xs Q lo (v :: vs)) :
    u.onset = v.onset ∧ u.last = v.last := by
  obtain ⟨hfirst, -, hrest⟩ := h
  obtain ⟨hfirst', -, hrest'⟩ := h'
  have honset := hfirst.unique hfirst'
  refine ⟨honset, ?_⟩
  rw [← honset] at hrest'
  cases hu : u.ended <;> cases hv : v.ended <;>
    simp only [hu, hv, if_true, Bool.false_eq_true, if_false] at hrest hrest'
  · omega
  · exact absurd hrest'.2.1.totals (hrest.2.2.2 _ hrest'.2.1.totals.le hrest'.1)
  · exact absurd hrest.2.1.totals (hrest'.2.2.2 _ hrest.2.1.totals.le hrest.1)
  · exact hrest.2.1.unique hrest'.2.1

def Event.is_audio : Event α → Bool
  | .audio _ => true
  | _ => false

/-- How much audio the first utterance has can be read off the events. -/
theorem audio_counted (us : List Utterance) (hlast : u.last < xs.length) :
    ((((u :: us).flatMap (Utterance.events xs)).tail).takeWhile Event.is_audio).length =
      u.last + 1 - u.first := by
  have hall : ∀ e ∈ (slice xs u.first (u.last + 1)).map Event.audio, Event.is_audio e = true := by
    intro e he
    obtain ⟨c, -, rfl⟩ := List.mem_map.1 he
    rfl
  have hrest : ((if u.ended then [Event.speech_end] else []) ++ us.flatMap (Utterance.events xs)).takeWhile
      Event.is_audio = [] := by
    cases u.ended with
    | true => rfl
    | false =>
      cases us with
      | nil => rfl
      | cons v vs => rfl
  rw [List.flatMap_cons, Utterance.events, List.cons_append, List.cons_append, List.tail_cons,
    List.append_assoc, List.takeWhile_append_of_pos hall, hrest]
  simp [slice]
  omega

/-- The ring holds the run of speech that confirms an utterance. -/
theorem burst_replayed (hfits : cfg.min_speech_ms ≤ cfg.chunk * cfg.preroll_max)
    (hfirst : FirstTotals (heard xs) cfg.chunk cfg.min_speech_ms lo u.onset) (hu : replayed cfg lo u) :
    whole_burst xs lo u := by
  have hle := hfirst.totals.le
  have hpos : 0 < cfg.preroll_max := preroll_max_pos
  unfold replayed at hu
  refine ⟨by omega, by omega, fun b hlo hall => ?_⟩
  rcases Nat.lt_or_ge b u.onset with hlt | hge
  · have hshort := Int.lt_of_lt_of_le (hfirst.short hlo hlt hall) hfits
    have := Int.lt_of_mul_lt_mul_left hshort (Int.le_of_lt chunk_pos)
    omega
  · omega

/-- What is lossless has its first burst in the ring. -/
theorem Lossless.fits (h : Lossless cfg xs) {i : ℕ} (hi : i < xs.length)
    (htotal : Totals (heard xs) cfg.chunk cfg.min_speech_ms 0 i) :
    cfg.min_speech_ms ≤ cfg.chunk * cfg.preroll_max := by
  obtain ⟨us, hevents, hus⟩ := h
  obtain ⟨vs, hevents', hvs⟩ := gated_segments cfg xs
  cases us with
  | nil => exact absurd htotal (hus i (Nat.zero_le i) hi)
  | cons u us =>
    cases vs with
    | nil => exact absurd htotal (hvs i (Nat.zero_le i) hi)
    | cons v vs =>
      obtain ⟨honset, hlast⟩ := hus.head_unique hvs
      obtain ⟨hle, hlt⟩ := hus.head
      have hcount : u.last + 1 - u.first = v.last + 1 - v.first := by
        rw [← audio_counted us hlt, ← audio_counted vs (hlast ▸ hlt), ← hevents, ← hevents']
      obtain ⟨hfirst, ⟨-, hbefore, hburst⟩, -⟩ := hus
      obtain ⟨-, hv, -⟩ := hvs
      unfold replayed at hv
      obtain ⟨b, hlo, hb, hall, htotal⟩ := hfirst.totals
      have hstart := hburst b hlo hall
      refine Int.le_trans htotal (Int.mul_le_mul_of_nonneg_left ?_ (Int.le_of_lt chunk_pos))
      omega

/-- The gate loses nothing when the ring, rounded to whole chunks, holds what confirms an onset, and when
    there is no onset. -/
theorem gated_lossless_iff (cfg : Config) (xs : List (α × Option Bool)) : Lossless cfg xs ↔
    cfg.min_speech_ms ≤ cfg.chunk * cfg.preroll_max ∨
      ∀ i, i < xs.length → ¬ Totals (heard xs) cfg.chunk cfg.min_speech_ms 0 i := by
  constructor
  · intro h
    by_cases hfits : cfg.min_speech_ms ≤ cfg.chunk * cfg.preroll_max
    · exact Or.inl hfits
    · exact Or.inr fun i hi htotal => hfits (h.fits hi htotal)
  · obtain ⟨us, hevents, hus⟩ := gated_segments cfg xs
    rintro (hfits | hnone)
    · exact ⟨us, hevents, hus.mono fun _ _ hfirst hu => burst_replayed hfits hfirst hu⟩
    · cases us with
      | nil => exact ⟨[], hevents, hus⟩
      | cons u us =>
        have hbounds := hus.head
        exact absurd hus.1.totals (hnone u.onset (Nat.lt_of_le_of_lt hbounds.1 hbounds.2))

end

/-- Chunks of 100 ms, and as much pre-roll as confirms an onset. -/
def tight : Config := ⟨100, 250, 600, 250⟩

def three_loud : List (ℕ × Option Bool) := [(1, some true), (2, some true), (3, some true)]

/-- The ring is rounded to two chunks, and the first of the three that confirm the onset is gone. -/
theorem first_chunk_swallowed : tight.min_speech_ms ≤ tight.preroll_ms ∧
    vad_gated tight three_loud = [.speech_start, .audio 2, .audio 3] ∧ ¬ Lossless tight three_loud := by
  refine ⟨by decide, by decide, fun h => ?_⟩
  have htotal : Totals (heard three_loud) tight.chunk tight.min_speech_ms 0 2 := by
    refine ⟨0, Nat.zero_le _, by decide, fun j _ hj => ?_, by decide⟩
    obtain rfl | rfl | rfl : j = 0 ∨ j = 1 ∨ j = 2 := by omega
    · exact ⟨_, rfl, rfl⟩
    · exact ⟨_, rfl, rfl⟩
    · exact ⟨_, rfl, rfl⟩
  exact absurd (h.fits (by decide) htotal) (by decide)

end LocalVoice.VadGate
