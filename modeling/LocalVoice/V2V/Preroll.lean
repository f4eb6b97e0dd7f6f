import LocalVoice.V2V.Generations
import Mathlib.Algebra.GroupWithZero.Nat
import Mathlib.Data.List.Nodup

/-! The audio of a `/v2v/stream` session on its way to the recogniser. The dispatcher gives a frame to
    the open utterance, or keeps it in a ring, which it replays when the frontend VAD opens the next
    one. The control flow is that of the ASR side, with the gates of a single-turn session. Whether a
    frame goes to the ring is decided after the awaits that gave it to the recogniser, and an
    utterance that is opened lazily leaves the ring as it is; in runs where neither shows, the audio
    is given once and in order (`audio_in_order`). -/

namespace LocalVoice.V2V.AsrTurns
open LocalVoice.Lib

/-! ### The dispatcher's audio -/

/-- The samples of a binary frame: its place in the order of arrival, and how many there are. -/
structure Samples where
  number : ℕ
  length : ℕ
  deriving DecidableEq

/-- What a session is opened with, besides the ASR side's part. -/
structure Setup extends Config where
  multi_utterance : Bool
  preroll_cap : ℕ

/-- `received` and `given`, the calls of `accept_audio`, are not in the source. -/
structure Intake where
  session : Session
  asr_started_once : Bool
  asr_session_closed : Bool
  /-- `samples`, of the frame that the dispatcher has in hand. -/
  samples : Option Samples
  preroll : List Samples
  preroll_samples : ℕ
  received : List Samples
  given : List (List Samples)

def Intake.init (coord : Coordinator) : Intake := ⟨.init coord, false, false, none, [], 0, [], []⟩

inductive Act where
  /-- A binary frame, what the VAD makes of it, and how many samples it holds. -/
  | binary (event : Vad) (length : ℕ)
  | session (a : Action)
  deriving DecidableEq

/-- The oldest frames go while the ring holds too much, but never the last one. -/
def trim (preroll_cap : ℕ) : List Samples → ℕ → List Samples × ℕ
  | x :: y :: ring, n =>
    if preroll_cap < n then trim preroll_cap (y :: ring) (n - x.length) else (x :: y :: ring, n)
  | ring, n => (ring, n)

namespace Intake

/-- The bottom of the loop body: a frame goes to the ring while no utterance is open. -/
def bottom (cfg : Setup) (A : Intake) : Intake :=
  match A.samples with
  | some x =>
    if 0 < cfg.preroll_cap ∧ A.session.asr_active = false then
      let ring := trim cfg.preroll_cap (A.preroll ++ [x]) (A.preroll_samples + x.length)
      { A with samples := none, preroll := ring.1, preroll_samples := ring.2 }
    else { A with samples := none }
  | none => A

/-- `multi_utterance or not state["asr_started_once"]`, in front of the lazy open. -/
def may_open (cfg : Setup) (A : Intake) (t : Session) : Session :=
  match t.dispatcher with
  | .opening_lock .lazily event =>
    if cfg.multi_utterance ∨ A.asr_started_once = false then t else t.accept event
  | _ => t

/-- The dispatcher goes on with the frame in hand, up to its next await or the next frame. -/
def settle (cfg : Setup) (A : Intake) (t : Session) : Intake :=
  if (A.may_open cfg t).dispatcher = .receive then
    ({ A with session := A.may_open cfg t } : Intake).bottom cfg
  else { A with session := A.may_open cfg t }

/-- A single-turn session closes its input side with the first endpoint. -/
def close (cfg : Setup) (A : Intake) : Intake :=
  match A.session.endpoint_pending, A.session.asr_out with
  | some _, _ | none, .announcing _ =>
    { A with asr_session_closed := A.asr_session_closed || !cfg.multi_utterance }
  | none, _ => A

/-- A binary frame is received. -/
def receive (cfg : Setup) (A : Intake) (event : Vad) (x : Samples) : Intake :=
  if A.asr_session_closed ∨
      cfg.multi_utterance = false ∧ A.asr_started_once = true ∧ A.session.asr_active = false then
    { A with received := A.received ++ [x] }
  else
    (({ A with received := A.received ++ [x], samples := some x } : Intake).settle cfg
      (A.session.frame cfg.toConfig (.audio event))).close cfg

/-- What becomes of the audio when the ASR side goes from one state to the next. -/
def follow (cfg : Setup) (A : Intake) (t : Session) : Action → Intake
  | .enter => match A.session.dispatcher with
    | .preroll_lock _ => { A with session := t, given := A.given ++ [A.preroll] }
    | .accept_lock _ => { A with session := t, given := A.given ++ [A.samples.toList] }
    | _ => { A with session := t }
  | .returns _ => match A.session.dispatcher with
    | .opened .. => ({ A with asr_started_once := true } : Intake).settle cfg t
    | .preroll _ => ({ A with preroll := [], preroll_samples := 0 } : Intake).settle cfg t
    | .accepting _ => A.settle cfg t
    | _ => { A with session := t }
  | .sent => match A.session.dispatcher with
    | .speech_started _ | .speech_ended => A.settle cfg t
    | _ => { A with session := t, samples := none }
  | _ => { A with session := t }

/-- What a single-turn session does otherwise: a speech start after the first one ends with the
    client's event, and so does `asr_out_task` with a final or an error. -/
def single_turn (cfg : Setup) (A : Intake) : Action → Option Intake
  | .sent => match A.session.dispatcher with
    | .speech_started _ =>
      if cfg.multi_utterance = false ∧ A.asr_started_once = true then
        some { A with session := { A.session with dispatcher := .receive }, samples := none }
      else none
    | _ => none
  | .out_sent =>
    if cfg.multi_utterance = false ∧ A.session.asr_out = .sending then
      some { A with session := { A.session with asr_out := .ended } }
    else none
  | _ => none

/-- The steps that the ring and the frames have a say in. -/
def allows (A : Intake) : Action → Bool
  | .frame (.audio _) => false
  | .returns preroll => match A.session.dispatcher with
    | .opened .vad .. => preroll = !A.preroll.isEmpty
    | _ => true
  | _ => true

def step (cfg : Setup) (A : Intake) : Act → Option Intake
  | .binary event length =>
    if A.session.dispatcher = .receive then
      some (A.receive cfg event ⟨A.received.length, length⟩)
    else none
  | .session a =>
    if A.allows a then
      match A.single_turn cfg a with
      | some B => some B
      | none => (A.session.step cfg.toConfig a).map fun t => (A.follow cfg t a).close cfg
    else none

end Intake

def Takes (cfg : Setup) (A : Intake) (a : Act) (B : Intake) : Prop := A.step cfg a = some B

/-- How many samples the frames of a ring hold. -/
def total (ring : List Samples) : ℕ := (ring.map Samples.length).sum

/-- The frames given to the recogniser are among those received, in their order and none twice. -/
def InOrder (A : Intake) : Prop := A.given.flatten.Sublist A.received ∧ A.given.flatten.Nodup

/-- The count of the ring is right, and above the cap for a single frame at most. -/
def Counted (cfg : Setup) (A : Intake) : Prop :=
  A.preroll_samples = total A.preroll ∧
    (cfg.preroll_cap < A.preroll_samples → A.preroll.length = 1)

/-! ### When the audio is given in order -/

/-- `asr_out_task` takes `asr_active` back. -/
def Session.drops (s : Session) : Action → Bool
  | .turn_cancelled => true
  | .finalize_returns accepted idle => match s.asr_out with
    | .finalizing finalize_gen => if accepted then s.asr_active_gen = finalize_gen else idle
    | _ => false
  | _ => false

/-- The frame in hand is for the open utterance, and the ring has not been asked yet. -/
def Dispatcher.feeding : Dispatcher → Bool
  | .accept_lock _ | .accepting _ | .speech_ended => true
  | _ => false

/-- `on_speech_start` has been called without a speech start. -/
def Dispatcher.opened_lazily : Dispatcher → Bool
  | .opened .lazily .. => true
  | _ => false

def Action.returned : Action → Bool
  | .returns _ => true
  | _ => false

/-- There is a VAD that can have the ring replayed. -/
def Setup.replays (cfg : Setup) : Prop := cfg.vad = true ∧ 0 < cfg.preroll_cap

/-- An utterance is not taken back while a frame that was for it is in hand, and none is opened lazily
    with frames in the ring. -/
def Steady (cfg : Setup) (A : Intake) : Act → Prop
  | .session a => cfg.replays →
    (A.session.drops a = true → A.session.asr_active = true → A.session.dispatcher.feeding = false) ∧
      (a.returned = true → A.session.dispatcher.opened_lazily = true → A.preroll = [])
  | .binary .. => True

instance (cfg : Setup) : Decidable cfg.replays := inferInstanceAs (Decidable (_ ∧ _))

instance (cfg : Setup) (A : Intake) : (a : Act) → Decidable (Steady cfg A a)
  | .session _ => inferInstanceAs (Decidable (_ → _))
  | .binary .. => inferInstanceAs (Decidable True)

/-! ### What the ASR side does to the dispatcher -/

section
variable {cfg : Config} {s t : Session} {event : Vad}

/-- A step of another task: the dispatcher stays where it is, and an utterance may be taken back. -/
structure Aside (s t : Session) : Prop where
  dispatcher : t.dispatcher = s.dispatcher
  asr_active : t.asr_active = s.asr_active

theorem aside_fire (belongs : Option ℕ) : Aside s (s.fire belongs) := by
  unfold Session.fire
  split
  · split
    · split <;> exact ⟨rfl, rfl⟩
    · exact ⟨rfl, rfl⟩
  · exact ⟨rfl, rfl⟩

theorem aside_drop_stale : Aside s s.drop_stale := by
  unfold Session.drop_stale
  split <;> exact ⟨rfl, rfl⟩

theorem aside_endpoint ( is_endpoint : Bool) (partial_gen : ℕ) :
    Aside s (s.endpoint is_endpoint partial_gen) := by
  unfold Session.endpoint
  split
  · exact ⟨rfl, rfl⟩
  · obtain ⟨hd, ha⟩ := aside_fire (s := { s.clear_endpoint with overtaken := s.dispatcher.raised })
      s.endpoint_pending_gen
    exact ⟨hd, ha⟩
  · obtain ⟨hd, ha⟩ := aside_drop_stale (s := s)
    split
    · exact ⟨rfl, rfl⟩
    · exact ⟨hd, ha⟩

theorem aside_loop : Aside s s.loop := by
  unfold Session.loop
  split
  · exact ⟨rfl, rfl⟩
  · exact aside_endpoint false 0

theorem aside_polled ( is_partial is_endpoint : Bool) (partial_gen : ℕ) :
    Aside s (s.polled is_partial is_endpoint partial_gen) := by
  unfold Session.polled
  split
  · exact ⟨rfl, rfl⟩
  · exact aside_endpoint is_endpoint partial_gen

/-- The steps of the dispatcher. -/
def Action.dispatch : Action → Bool
  | .frame _ | .sent | .enter | .raise_generation _ | .returns _ | .unavailable | .dispatcher_ends => true
  | _ => false

theorem aside_spec {a : Action} (h : Steps cfg s a t) (ha : a.dispatch = false) :
    t.dispatcher = s.dispatcher ∧
      (t.asr_active = s.asr_active ∨ s.drops a = true ∧ t.asr_active = false) := by
  have hkeeps : ∀ {u : Session}, Aside s u → u = t → t.dispatcher = s.dispatcher ∧
      (t.asr_active = s.asr_active ∨ s.drops a = true ∧ t.asr_active = false) := by
    rintro u ⟨hd, hact⟩ rfl
    exact ⟨hd, .inl hact⟩
  cases a with
  | frame | sent | enter | raise_generation | returns | unavailable | dispatcher_ends => cases ha
  | pass expired =>
    simp only [Steps, Session.step] at h
    split at h
    · split at h
      · split at h
        · cases h
          exact ⟨rfl, .inl rfl⟩
        · cases h
      · exact hkeeps aside_loop (Option.some.inj h)
    · cases h
  | turn_cancelled =>
    simp only [Steps, Session.step] at h
    split at h <;> cases h
    exact ⟨rfl, .inr ⟨rfl, rfl⟩⟩
  | out_sent =>
    simp only [Steps, Session.step] at h
    split at h
    · exact hkeeps (aside_endpoint _ _) (Option.some.inj h)
    · exact hkeeps (aside_fire _) (Option.some.inj h)
    · cases h
      exact ⟨rfl, .inl rfl⟩
    · cases h
  | out_enter =>
    simp only [Steps, Session.step] at h
    split at h <;> cases h <;> exact ⟨rfl, .inl rfl⟩
  | poll_reads =>
    simp only [Steps, Session.step] at h
    split at h <;> cases h
    exact ⟨rfl, .inl rfl⟩
  | poll_returns is_partial is_endpoint =>
    simp only [Steps, Session.step] at h
    split at h
    · obtain ⟨hd, hact⟩ := aside_polled (s := s.leave .asr_out) is_partial is_endpoint _
      exact hkeeps ⟨hd, hact⟩ (Option.some.inj h)
    · cases h
  | poll_fails =>
    obtain ⟨hd, hact⟩ := aside_endpoint (s := s.leave .asr_out) false 0
    simp only [Steps, Session.step] at h
    split at h
    · exact hkeeps ⟨hd, hact⟩ (Option.some.inj h)
    · exact hkeeps ⟨hd, hact⟩ (Option.some.inj h)
    · cases h
  | prepared =>
    simp only [Steps, Session.step] at h
    split at h
    · split at h <;> cases h
      exact ⟨rfl, .inl rfl⟩
    · cases h
  | finalize_returns accepted idle =>
    simp only [Steps, Session.step] at h
    split at h
    · next finalize_gen hout =>
      cases h
      unfold Session.finalized
      have hdrops : s.drops (.finalize_returns accepted idle) =
          if accepted then decide (s.asr_active_gen = finalize_gen) else idle := by
        rw [Session.drops, hout]
      rw [hdrops]
      cases accepted with
      | true =>
        by_cases hgen : (s.leave .asr_out).asr_active_gen = finalize_gen
        · rw [if_pos rfl, if_pos hgen]
          exact ⟨rfl, .inr ⟨decide_eq_true hgen, rfl⟩⟩
        · rw [if_pos rfl, if_neg hgen]
          exact ⟨rfl, .inl rfl⟩
      | false => cases idle <;> simp [Session.leave, Session.drop_turn, Session.clear_endpoint,
          Session.clear_asr_prepare_state]
    · cases h
  | asr_out_ends =>
    cases h
    exact ⟨rfl, .inl rfl⟩
  | prepare_done k =>
    simp only [Steps, Session.step] at h
    split at h <;> cases h
    exact ⟨rfl, .inl rfl⟩
  | elsewhere_enters =>
    simp only [Steps, Session.step] at h
    obtain ⟨coord, _, rfl⟩ := Option.map_eq_some_iff.1 h
    exact ⟨rfl, .inl rfl⟩
  | elsewhere_leaves =>
    cases h
    exact ⟨rfl, .inl rfl⟩

theorem schedule_active : s.schedule_asr_prepare.asr_active = s.asr_active := by
  unfold Session.schedule_asr_prepare
  split
  · rfl
  · split <;> rfl

theorem speech_end_goes (s : Session) (event : Vad) :
    (s.speech_end event).asr_active = s.asr_active ∧
    ((s.speech_end event).dispatcher = .receive ∨ (s.speech_end event).dispatcher = .speech_ended) := by
  cases event with
  | quiet | speech_start => exact ⟨rfl, .inl rfl⟩
  | speech_end may =>
    cases may with
    | false => exact ⟨rfl, .inr rfl⟩
    | true => exact ⟨schedule_active, .inr rfl⟩

/-- The dispatcher goes on with a frame that the recogniser has not got. -/
structure Goes (s t : Session) : Prop where
  asr_active : t.asr_active = s.asr_active
  goes : (∃ event, t.dispatcher = .accept_lock event) ∧ t.asr_active = true ∨
    (t.dispatcher = .receive ∨ t.dispatcher = .speech_ended) ∧ t.asr_active = false

theorem accept_goes : Goes s (s.accept event) := by
  unfold Session.accept
  split
  · next hact => exact ⟨rfl, .inl ⟨⟨event, rfl⟩, hact⟩⟩
  · next hact =>
    obtain ⟨hsame, hgoes⟩ := speech_end_goes s event
    exact ⟨hsame, .inr ⟨hgoes, hsame.trans (Bool.eq_false_iff.2 hact)⟩⟩

theorem open_lazily_goes : (∃ e, (s.open_lazily cfg event).dispatcher = .opening_lock .lazily e) ∧
    (s.open_lazily cfg event).asr_active = s.asr_active ∨ Goes s (s.open_lazily cfg event) := by
  unfold Session.open_lazily
  split
  · exact .inl ⟨⟨event, rfl⟩, rfl⟩
  · exact .inr accept_goes

end

/-! ### The ring -/

section
variable {cfg : Setup} {A B : Intake} {s t u : Session}

theorem trim_suffix (cap : ℕ) (ring : List Samples) (n : ℕ) : (trim cap ring n).1 <:+ ring := by
  fun_induction trim cap ring n with
  | case1 x y ring n hover ih => exact ih.trans (List.suffix_cons x _)
  | case2 x y ring n hover => exact List.suffix_refl _
  | case3 ring n hshort => exact List.suffix_refl _

theorem trim_counted (cap : ℕ) (ring : List Samples) (n : ℕ) (h : n = total ring) :
    (trim cap ring n).2 = total (trim cap ring n).1 := by
  fun_induction trim cap ring n with
  | case1 x y ring n hover ih =>
    refine ih ?_
    rw [h, total, total, List.map_cons, List.sum_cons]
    exact Nat.add_sub_cancel_left ..
  | case2 x y ring n hover => exact h
  | case3 ring n hshort => exact h

theorem trim_bounded (cap : ℕ) (ring : List Samples) (n : ℕ) (hsome : ring ≠ [])
    (h : cap < (trim cap ring n).2) : (trim cap ring n).1.length = 1 := by
  fun_induction trim cap ring n with
  | case1 x y ring n hover ih => exact ih (List.cons_ne_nil _ _) h
  | case2 x y ring n hover => exact absurd h hover
  | case3 ring n hshort =>
    match ring, hsome, hshort with
    | [x], _, _ => rfl
    | x :: y :: ring, _, hshort => exact (hshort x y ring rfl).elim

theorem Counted.bottom (h : Counted cfg A) : Counted cfg (A.bottom cfg) := by
  unfold Intake.bottom
  split
  · next x hx =>
    split
    · have hsum : A.preroll_samples + x.length = total (A.preroll ++ [x]) := by
        rw [h.1, total, total, List.map_append, List.sum_append]
        rfl
      exact ⟨trim_counted _ _ _ hsum, trim_bounded _ _ _ (by simp)⟩
    · exact h
  · exact h

theorem Counted.settle (h : Counted cfg A) : Counted cfg (A.settle cfg t) := by
  unfold Intake.settle
  split
  · exact Counted.bottom h
  · exact h

theorem Counted.close (h : Counted cfg A) : Counted cfg (A.close cfg) := by
  unfold Intake.close
  split <;> exact h

theorem single_turn_counted {a : Action} (hst : A.single_turn cfg a = some B) (h : Counted cfg A) :
    Counted cfg B := by
  unfold Intake.single_turn at hst
  split at hst
  · split at hst
    · split at hst <;> cases hst
      exact h
    · cases hst
  · split at hst <;> cases hst
    exact h
  · cases hst

theorem step_counted {a : Act} (hst : Takes cfg A a B) (h : Counted cfg A) : Counted cfg B := by
  cases a with
  | binary event length =>
    simp only [Takes, Intake.step] at hst
    split at hst
    · cases hst
      unfold Intake.receive
      split
      · exact h
      · exact Counted.close (Counted.settle h)
    · cases hst
  | session a =>
    simp only [Takes, Intake.step] at hst
    split at hst
    · split at hst
      · next hsingle =>
        cases hst
        exact single_turn_counted hsingle h
      · obtain ⟨t, -, rfl⟩ := Option.map_eq_some_iff.1 hst
        refine Counted.close ?_
        unfold Intake.follow
        split
        · split <;> exact h
        · split
          · exact Counted.settle h
          · exact Counted.settle ⟨rfl, fun hlt => absurd hlt (Nat.not_lt_zero _)⟩
          · exact Counted.settle h
          · exact h
        · split
          · exact Counted.settle h
          · exact Counted.settle h
          · exact h
        · exact h
    · cases hst

/-- The count of the ring is right in every run. -/
theorem runs_counted {coord : Coordinator} {as : List Act} (h : Run (Takes cfg) (.init coord) as A) :
    Counted cfg A :=
  h.invariant (I := Counted cfg) (fun hs hst => step_counted hst hs)
    ⟨rfl, fun hlt => absurd hlt (Nat.not_lt_zero _)⟩

/-! ### The order of the frames -/

/-- The frames of the ring that may be given. -/
def Intake.ring (cfg : Setup) (A : Intake) : List Samples := if cfg.vad then A.preroll else []

/-- The frames that may be given, in the order in which they would be. -/
def Intake.waiting (cfg : Setup) (A : Intake) : List Samples :=
  match A.session.dispatcher with
  | .ended _ => []
  | .preroll _ => A.samples.toList
  | .accepting _ => A.ring cfg
  | .speech_ended =>
    A.ring cfg ++ if cfg.replays ∧ A.session.asr_active = false then A.samples.toList else []
  | _ => A.ring cfg ++ A.samples.toList

/-- The VAD has opened an utterance, and the ring has not been replayed. -/
def Dispatcher.replays : Dispatcher → Bool
  | .preroll_lock _ | .preroll _ | .ended _ => true
  | _ => false

/-- An open utterance takes the frame in hand. -/
def Dispatcher.accepts : Dispatcher → Bool
  | .accept_lock _ | .accepting _ => true
  | _ => false

def Dispatcher.of_vad : Dispatcher → Bool
  | .speech_started _ | .opening_lock .vad _ | .opening .vad _ | .opened .vad .. | .preroll_lock _
  | .preroll _ => true
  | _ => false

/-- There is no frame in hand. -/
def Dispatcher.idle : Dispatcher → Bool
  | .receive | .cancel_lock | .cancelling => true
  | _ => false

/-- What was given, what is in the ring and what is in hand are in order, and nothing is in the ring
    while an utterance is open. -/
structure Keeps (cfg : Setup) (A : Intake) : Prop where
  order : (A.given.flatten ++ A.waiting cfg).Sublist A.received
  numbers : A.received.map Samples.number = List.range A.received.length
  empty : A.session.asr_active = true → cfg.vad = true → A.session.dispatcher.replays = false →
    A.preroll = []
  accepts : A.session.dispatcher.accepts = true → cfg.vad = true →
    A.preroll = [] ∧ (A.session.asr_active = true ∨ cfg.preroll_cap = 0)
  of_vad : A.session.dispatcher.of_vad = true → cfg.vad = true
  idle : A.session.dispatcher.idle = true → A.samples = none
  capless : cfg.preroll_cap = 0 → A.preroll = []

theorem keeps_init (coord : Coordinator) : Keeps cfg (.init coord) := by
  refine ⟨?_, rfl, nofun, nofun, nofun, fun _ => rfl, fun _ => rfl⟩
  simp [Intake.waiting, Intake.init, Session.init, Intake.ring]

/-- Another task has run: the dispatcher is where it was, and while it feeds an utterance that one is
    still open. -/
theorem Keeps.aside (h : Keeps cfg A) (hd : t.dispatcher = A.session.dispatcher)
    (hon : t.asr_active = true → A.session.asr_active = true)
    (hfeeding : cfg.replays → A.session.dispatcher.feeding = true →
      t.asr_active = A.session.asr_active) : Keeps cfg { A with session := t } := by
  have hwaiting : Intake.waiting cfg { A with session := t } = A.waiting cfg := by
    unfold Intake.waiting
    rw [hd]
    cases hplace : A.session.dispatcher with
    | speech_ended =>
      by_cases hreplays : cfg.replays
      · simp only [hfeeding hreplays (by rw [hplace]; rfl)]
        rfl
      · rw [if_neg fun hboth => hreplays hboth.1, if_neg fun hboth => hreplays hboth.1]
        rfl
    | _ => rfl
  refine ⟨?_, h.numbers, fun ha hvad hr => ?_, fun ha hvad => ?_, fun hv => ?_, fun hi => ?_, h.capless⟩
  · rw [hwaiting]
    exact h.order
  · exact h.empty (hon ha) hvad (hd ▸ hr)
  · have ha : A.session.dispatcher.accepts = true := hd ▸ ha
    obtain ⟨hring, hopen⟩ := h.accepts ha hvad
    refine ⟨hring, hopen.elim (fun hact => ?_) .inr⟩
    rcases Nat.eq_zero_or_pos cfg.preroll_cap with hcap | hcap
    · exact .inr hcap
    · refine .inl ((hfeeding ⟨hvad, hcap⟩ ?_).trans hact)
      cases hplace : A.session.dispatcher with
      | accept_lock | accepting => rfl
      | _ => rw [hplace] at ha; cases ha
  · exact h.of_vad (hd ▸ hv)
  · exact h.idle (hd ▸ hi)

/-- The frame in hand has not been given. -/
structure InHand (cfg : Setup) (A : Intake) : Prop where
  order : (A.given.flatten ++ (A.ring cfg ++ A.samples.toList)).Sublist A.received
  numbers : A.received.map Samples.number = List.range A.received.length
  empty : A.session.asr_active = true → cfg.vad = true → A.preroll = []
  capless : cfg.preroll_cap = 0 → A.preroll = []

/-- The frame in hand has been decided on, and if it would go to the ring, it has not been given. -/
structure Handled (cfg : Setup) (A : Intake) : Prop where
  order : (A.given.flatten ++ A.ring cfg).Sublist A.received
  kept : cfg.replays → A.session.asr_active = false →
    (A.given.flatten ++ (A.preroll ++ A.samples.toList)).Sublist A.received
  numbers : A.received.map Samples.number = List.range A.received.length
  empty : A.session.asr_active = true → cfg.vad = true → A.preroll = []
  capless : cfg.preroll_cap = 0 → A.preroll = []

theorem InHand.handled (h : InHand cfg A) : Handled cfg A := by
  refine ⟨?_, fun hreplays _ => ?_, h.numbers, h.empty, h.capless⟩
  · exact (List.append_sublist_append_left _ |>.2 (List.sublist_append_left ..)).trans h.order
  · have hring : A.ring cfg = A.preroll := if_pos hreplays.1
    exact hring ▸ h.order

/-- The places where the frame in hand has not been given, and the ring not been replayed. -/
def Dispatcher.holding : Dispatcher → Bool
  | .speech_started _ | .opening_lock .. | .opening .. | .opened .. | .unavailable .. => true
  | _ => false

theorem Keeps.in_hand (h : Keeps cfg A) (hd : A.session.dispatcher.holding = true) : InHand cfg A := by
  have hwaiting : A.waiting cfg = A.ring cfg ++ A.samples.toList ∧
      A.session.dispatcher.replays = false := by
    unfold Intake.waiting
    cases hplace : A.session.dispatcher with
    | speech_started | opening_lock | opening | opened | unavailable => exact ⟨rfl, rfl⟩
    | _ => rw [hplace] at hd; cases hd
  exact ⟨hwaiting.1 ▸ h.order, h.numbers, fun ha hvad => h.empty ha hvad hwaiting.2, h.capless⟩

theorem InHand.holds (h : InHand cfg { A with session := t }) (hd : t.dispatcher.holding = true)
    (hvad : t.dispatcher.of_vad = true → cfg.vad = true) : Keeps cfg { A with session := t } := by
  have hplace : Intake.waiting cfg { A with session := t } =
      Intake.ring cfg { A with session := t } ++ A.samples.toList ∧ t.dispatcher.accepts = false ∧
      t.dispatcher.idle = false := by
    unfold Intake.waiting
    cases hplace : t.dispatcher with
    | speech_started | opening_lock | opening | opened | unavailable =>
      simp [Dispatcher.accepts, Dispatcher.idle]
    | _ => rw [hplace] at hd; cases hd
  obtain ⟨hwaiting, haccepts, hidle⟩ := hplace
  refine ⟨?_, h.numbers, fun ha hv _ => h.empty ha hv, ?_, hvad, ?_, h.capless⟩
  · rw [hwaiting]
    exact h.order
  · exact fun ha => absurd (haccepts.symm.trans ha) nofun
  · exact fun hi => absurd (hidle.symm.trans hi) nofun

/-- The frame in hand goes to the ring if there is no utterance. -/
theorem Handled.bottom (h : Handled cfg { A with session := t }) (hd : t.dispatcher = .receive) :
    Keeps cfg (({ A with session := t } : Intake).bottom cfg) := by
  have hwaiting : ∀ B : Intake, B.session = t → B.samples = none → B.waiting cfg = B.ring cfg := by
    rintro B rfl hnone
    rw [Intake.waiting, hd, hnone]
    exact List.append_nil _
  have haccepts : t.dispatcher.accepts = false := by rw [hd]; rfl
  have hof_vad : t.dispatcher.of_vad = false := by rw [hd]; rfl
  unfold Intake.bottom
  split
  · next x hx =>
    split
    · next hkeep =>
      obtain ⟨hcap, hoff⟩ := hkeep
      refine ⟨?_, h.numbers, fun ha => absurd (hoff.symm.trans ha) nofun,
        fun ha => absurd (haccepts.symm.trans ha) nofun,
        fun hv => absurd (hof_vad.symm.trans hv) nofun, fun _ => rfl, fun h0 => ?_⟩
      · rw [hwaiting _ rfl rfl, Intake.ring]
        split
        · next hvad =>
          have hx : A.samples = some x := hx
          have hkept := h.kept ⟨hvad, hcap⟩ hoff
          dsimp only at hkept
          rw [hx] at hkept
          exact ((List.append_sublist_append_left _).2 (trim_suffix ..).sublist).trans hkept
        · rw [List.append_nil]
          exact (List.sublist_append_left ..).trans h.order
      · exact absurd h0 (Nat.ne_of_gt hcap)
    · refine ⟨?_, h.numbers, fun ha hvad _ => h.empty ha hvad,
        fun ha => absurd (haccepts.symm.trans ha) nofun,
        fun hv => absurd (hof_vad.symm.trans hv) nofun, fun _ => rfl, h.capless⟩
      rw [hwaiting _ rfl rfl]
      exact h.order
  · next hnone =>
    refine ⟨?_, h.numbers, fun ha hvad _ => h.empty ha hvad,
      fun ha => absurd (haccepts.symm.trans ha) nofun,
      fun hv => absurd (hof_vad.symm.trans hv) nofun, fun _ => hnone, h.capless⟩
    rw [hwaiting _ rfl hnone]
    exact h.order

/-- The client is told that the speech has ended. -/
theorem Handled.ends (h : Handled cfg { A with session := t }) (hd : t.dispatcher = .speech_ended) :
    Keeps cfg { A with session := t } := by
  refine ⟨?_, h.numbers, fun ha hvad _ => h.empty ha hvad, ?_, ?_, ?_, h.capless⟩
  · rw [Intake.waiting, hd]
    dsimp only
    split
    · next hkeep =>
      have hring : Intake.ring cfg { A with session := t } = A.preroll := if_pos hkeep.1.1
      rw [hring]
      exact h.kept hkeep.1 hkeep.2
    · rw [List.append_nil]
      exact h.order
  all_goals
    intro hplace
    dsimp only at hplace
    rw [hd] at hplace
    cases hplace

/-- The dispatcher goes on with the frame in hand. -/
theorem InHand.lands (h : InHand cfg { A with session := t }) (hgoes : Goes u t) :
    Keeps cfg (if t.dispatcher = .receive then ({ A with session := t } : Intake).bottom cfg
      else { A with session := t }) := by
  rcases hgoes.goes with ⟨⟨event, hd⟩, hact⟩ | ⟨hd | hd, hact⟩
  · rw [if_neg (by rw [hd]; exact nofun)]
    refine ⟨?_, h.numbers, fun ha hvad _ => h.empty ha hvad, fun _ hvad => ⟨h.empty hact hvad, .inl hact⟩,
      ?_, ?_, h.capless⟩
    · rw [Intake.waiting, hd]
      exact h.order
    all_goals
      intro hplace
      dsimp only at hplace
      rw [hd] at hplace
      cases hplace
  · rw [if_pos hd]
    exact h.handled.bottom hd
  · rw [if_neg (by rw [hd]; exact nofun)]
    exact h.handled.ends hd

theorem InHand.session (h : InHand cfg A) (hact : u.asr_active = A.session.asr_active) :
    InHand cfg { A with session := u } :=
  ⟨h.order, h.numbers, fun ha => h.empty (hact.symm.trans ha), h.capless⟩

theorem InHand.settle (h : InHand cfg { A with session := s })
    (hgoes : (∃ event, t.dispatcher = .opening_lock .lazily event) ∧ t.asr_active = s.asr_active ∨
      Goes s t) : Keeps cfg (A.settle cfg t) := by
  unfold Intake.settle
  rcases hgoes with ⟨⟨event, hd⟩, hact⟩ | hgoes
  · have hmay : A.may_open cfg t = if cfg.multi_utterance ∨ A.asr_started_once = false then t
        else t.accept event := by
      rw [Intake.may_open, hd]
    rw [hmay]
    split
    · rw [if_neg (by rw [hd]; exact nofun)]
      exact (h.session hact).holds (by rw [hd]; rfl) fun hv => by rw [hd] at hv; cases hv
    · exact ((h.session hact).session accept_goes.asr_active).lands accept_goes
  · have hmay : A.may_open cfg t = t := by
      unfold Intake.may_open
      rcases hgoes.goes with ⟨⟨event, hd⟩, -⟩ | ⟨hd | hd, -⟩ <;> rw [hd]
    rw [hmay]
    exact (h.session hgoes.asr_active).lands hgoes

/-- The dispatcher is suspended before the frame is given. -/
theorem InHand.stands (h : InHand cfg { A with session := t }) (hd : t.dispatcher.holding = true)
    (hlazily : ∀ event, t.dispatcher ≠ .opening_lock .lazily event)
    (hvad : t.dispatcher.of_vad = true → cfg.vad = true) : Keeps cfg (A.settle cfg t) := by
  have hmay : A.may_open cfg t = t := by
    unfold Intake.may_open
    split
    · next event hlazy => exact absurd hlazy (hlazily event)
    · rfl
  have hwaits : t.dispatcher ≠ .receive := by
    intro hreceive
    rw [hreceive] at hd
    cases hd
  rw [Intake.settle, hmay, if_neg hwaits]
  exact h.holds hd hvad

theorem Handled.settle (h : Handled cfg { A with session := t })
    (hgoes : t.dispatcher = .receive ∨ t.dispatcher = .speech_ended) : Keeps cfg (A.settle cfg t) := by
  have hmay : A.may_open cfg t = t := by
    unfold Intake.may_open
    rcases hgoes with hd | hd <;> rw [hd]
  rw [Intake.settle, hmay]
  rcases hgoes with hd | hd
  · rw [if_pos hd]
    exact h.bottom hd
  · rw [if_neg (by rw [hd]; exact nofun)]
    exact h.ends hd

/-- The dispatcher waits for a frame, with none in hand. -/
theorem Keeps.rests (horder : (A.given.flatten ++ A.ring cfg).Sublist A.received)
    (hnumbers : A.received.map Samples.number = List.range A.received.length)
    (hempty : t.asr_active = true → cfg.vad = true → A.preroll = [])
    (hcapless : cfg.preroll_cap = 0 → A.preroll = []) (hd : t.dispatcher.idle = true)
    (hnone : A.samples = none) : Keeps cfg { A with session := t } := by
  have hplace : Intake.waiting cfg { A with session := t } =
      Intake.ring cfg { A with session := t } ++ A.samples.toList ∧ t.dispatcher.accepts = false ∧
      t.dispatcher.of_vad = false := by
    unfold Intake.waiting
    cases hplace : t.dispatcher with
    | receive | cancel_lock | cancelling => exact ⟨rfl, rfl, rfl⟩
    | _ => rw [hplace] at hd; cases hd
  obtain ⟨hwaiting, haccepts, hof_vad⟩ := hplace
  refine ⟨?_, hnumbers, fun ha hvad _ => hempty ha hvad, ?_, ?_, fun _ => hnone, hcapless⟩
  · rw [hwaiting, hnone]
    exact (List.append_nil _).symm ▸ horder
  · exact fun ha => absurd (haccepts.symm.trans ha) nofun
  · exact fun hv => absurd (hof_vad.symm.trans hv) nofun

/-- What `Keeps` says while no frame is in hand. -/
theorem Keeps.at_rest (h : Keeps cfg A) (hd : A.session.dispatcher.idle = true) :
    (A.given.flatten ++ A.ring cfg).Sublist A.received ∧
      (A.session.asr_active = true → cfg.vad = true → A.preroll = []) := by
  have hplace : A.waiting cfg = A.ring cfg ++ A.samples.toList ∧
      A.session.dispatcher.replays = false := by
    unfold Intake.waiting
    cases hplace : A.session.dispatcher with
    | receive | cancel_lock | cancelling => exact ⟨rfl, rfl⟩
    | _ => rw [hplace] at hd; cases hd
  obtain ⟨hwaiting, hreplays⟩ := hplace
  refine ⟨?_, fun ha hvad => h.empty ha hvad hreplays⟩
  have horder := h.order
  rw [hwaiting, h.idle hd] at horder
  exact List.append_nil (A.ring cfg) ▸ horder

theorem Keeps.close (h : Keeps cfg A) : Keeps cfg (A.close cfg) := by
  obtain ⟨horder, hnumbers, hempty, haccepts, hof_vad, hidle, hcapless⟩ := h
  unfold Intake.close
  split <;> exact ⟨horder, hnumbers, hempty, haccepts, hof_vad, hidle, hcapless⟩

/-- A binary frame comes. -/
theorem Keeps.receive (h : Keeps cfg A) (hd : A.session.dispatcher = .receive) (event : Vad)
    {x : Samples} (hx : x.number = A.received.length) : Keeps cfg (A.receive cfg event x) := by
  have hidle : A.session.dispatcher.idle = true := by rw [hd]; rfl
  obtain ⟨horder, hempty⟩ := h.at_rest hidle
  have hnumbers : (A.received ++ [x]).map Samples.number = List.range (A.received ++ [x]).length := by
    rw [List.map_append, h.numbers, List.length_append, List.length_singleton, List.range_succ, ← hx]
    rfl
  unfold Intake.receive
  split
  · exact Keeps.rests (A := { A with received := A.received ++ [x] })
      (horder.trans (List.sublist_append_left ..)) hnumbers hempty h.capless hidle (h.idle hidle)
  · refine Keeps.close ?_
    have hhand : InHand cfg { A with received := A.received ++ [x], samples := some x } := by
      refine ⟨?_, hnumbers, hempty, h.capless⟩
      rw [← List.append_assoc]
      exact horder.append (List.Sublist.refl _)
    unfold Session.frame
    dsimp only
    by_cases hvad : cfg.vad = true
    · rw [if_pos hvad]
      split
      · refine InHand.stands ?_ rfl nofun fun _ => hvad
        exact hhand.session rfl
      · exact InHand.settle hhand open_lazily_goes
    · rw [if_neg hvad]
      exact InHand.settle (t := A.session.open_lazily cfg.toConfig .quiet) hhand open_lazily_goes

theorem Keeps.single_turn (h : Keeps cfg A) {a : Action} (hst : A.single_turn cfg a = some B) :
    Keeps cfg B := by
  unfold Intake.single_turn at hst
  split at hst
  · split at hst
    · next hd =>
      split at hst <;> cases hst
      have hhand := h.in_hand (by rw [hd]; rfl)
      exact Keeps.rests (A := { A with samples := none })
        hhand.handled.order h.numbers hhand.empty h.capless rfl rfl
    · cases hst
  · split at hst <;> cases hst
    exact h.aside rfl id fun _ _ => rfl
  · cases hst

/-- `send_json` has returned. -/
theorem Keeps.sent (h : Keeps cfg A) (hst : Steps cfg.toConfig A.session .sent t) :
    Keeps cfg (A.follow cfg t .sent) := by
  simp only [Steps, Session.step] at hst
  split at hst
  · next keeps hd =>
    have hhand := h.in_hand (by rw [hd]; rfl)
    rw [Intake.follow, hd]
    split at hst <;> cases hst
    · exact hhand.settle open_lazily_goes
    · refine InHand.stands ?_ rfl (by intro e he; cases he) fun _ => h.of_vad (by rw [hd]; rfl)
      exact hhand.session rfl
  · next site raised hd =>
    have hhand := h.in_hand (by rw [hd]; rfl)
    rw [Intake.follow, hd]
    cases hst
    have hskip : (A.session.skip_turn site).dispatcher = .receive ∧
        (A.session.skip_turn site).asr_active = false := by
      cases site <;> exact ⟨rfl, rfl⟩
    exact Keeps.rests (A := { A with samples := none }) hhand.handled.order h.numbers
      (fun ha => absurd (hskip.2.symm.trans ha) Bool.false_ne_true) h.capless (by rw [hskip.1]; rfl) rfl
  · next hd =>
    rw [Intake.follow, hd]
    cases hst
    have horder := h.order
    rw [Intake.waiting, hd] at horder
    dsimp only at horder
    have hhandled : Handled cfg { A with session := { A.session with dispatcher := .receive } } := by
      refine ⟨?_, fun hreplays hoff => ?_, h.numbers, fun ha hvad => ?_, h.capless⟩
      · exact (List.append_sublist_append_left _ |>.2 (List.sublist_append_left ..)).trans horder
      · rw [if_pos ⟨hreplays, hoff⟩] at horder
        have hring : A.ring cfg = A.preroll := if_pos hreplays.1
        exact hring ▸ horder
      · exact h.empty ha hvad (by rw [hd]; rfl)
    exact hhandled.settle (.inl rfl)
  · cases hst

/-- The dispatcher calls the manager. -/
theorem Keeps.enter (h : Keeps cfg A) (hst : Steps cfg.toConfig A.session .enter t) :
    Keeps cfg (A.follow cfg t .enter) := by
  simp only [Steps, Session.step] at hst
  split at hst
  · next d coord hentered _ =>
    cases hst
    unfold Session.entered at hentered
    split at hentered
    · next site event hd =>
      cases hentered
      have hhand := h.in_hand (by rw [hd]; rfl)
      rw [Intake.follow, hd]
      refine InHand.holds ?_ rfl fun hv => h.of_vad ?_
      · exact hhand.session rfl
      · rw [hd]
        cases site with
        | vad => rfl
        | lazily => cases hv
    · next event hd =>
      cases hentered
      rw [Intake.follow, hd]
      have hvad : cfg.vad = true := h.of_vad (by rw [hd]; rfl)
      have horder := h.order
      rw [Intake.waiting, hd, Intake.ring, if_pos hvad] at horder
      refine ⟨?_, h.numbers, fun _ _ hr => (by cases hr), (by intro h; cases h), fun _ => hvad,
        (by intro h; cases h), h.capless⟩
      rw [List.flatten_append, List.flatten_singleton, List.append_assoc]
      exact horder
    · next event hd =>
      cases hentered
      rw [Intake.follow, hd]
      have hring : A.ring cfg = [] := by
        rw [Intake.ring]
        split
        · next hvad => exact (h.accepts (by rw [hd]; rfl) hvad).1
        · rfl
      have horder := h.order
      rw [Intake.waiting, hd] at horder
      dsimp only at horder
      rw [hring, List.nil_append] at horder
      refine ⟨?_, h.numbers, fun ha hvad _ => h.empty ha hvad (by rw [hd]; rfl),
        fun _ hvad => h.accepts (by rw [hd]; rfl) hvad, (by intro h; cases h),
        (by intro h; cases h), h.capless⟩
      change ((A.given ++ [A.samples.toList]).flatten ++ A.ring cfg).Sublist A.received
      rw [hring, List.append_nil, List.flatten_append, List.flatten_singleton]
      exact horder
    · next hd =>
      cases hentered
      rw [Intake.follow, hd]
      obtain ⟨horder, hempty⟩ := h.at_rest (by rw [hd]; rfl)
      exact Keeps.rests horder h.numbers hempty h.capless rfl (h.idle (by rw [hd]; rfl))
    · cases hentered
  · cases hst

/-- The manager's call returns. -/
theorem Keeps.returns (h : Keeps cfg A) {preroll : Bool} (hallows : A.allows (.returns preroll) = true)
    (hsteady : Steady cfg A (.session (.returns preroll)))
    (hst : Steps cfg.toConfig A.session (.returns preroll) t) :
    Keeps cfg (A.follow cfg t (.returns preroll)) := by
  simp only [Steps, Session.step] at hst
  split at hst
  · next event new_gen hd =>
    have hhand := h.in_hand (by rw [hd]; rfl)
    rw [Intake.allows, hd] at hallows
    have hallows := of_decide_eq_true hallows
    rw [Intake.follow, hd]
    split at hst <;> cases hst
    · refine ⟨hhand.order, h.numbers, fun _ _ hr => (by cases hr), (by intro h; cases h), fun _ => ?_,
        (by intro h; cases h), h.capless⟩
      exact h.of_vad (by rw [hd]; rfl)
    · next hno =>
      have hnil : A.preroll = [] := by
        cases hring : A.preroll with
        | nil => rfl
        | cons x ring =>
          rw [hring] at hallows
          exact absurd hallows hno
      have hnow : InHand cfg { A with
          asr_started_once := true
          session := (A.session.leave .dispatcher).start_turn new_gen } :=
        ⟨hhand.order, h.numbers, fun _ _ => hnil, h.capless⟩
      exact InHand.settle (A := { A with asr_started_once := true }) hnow open_lazily_goes
  · next event new_gen hd =>
    have hhand := h.in_hand (by rw [hd]; rfl)
    cases hst
    rw [Intake.follow, hd]
    have hnil : cfg.vad = true → A.preroll = [] := by
      intro hvad
      rcases Nat.eq_zero_or_pos cfg.preroll_cap with hcap | hcap
      · exact h.capless hcap
      · exact (hsteady ⟨hvad, hcap⟩).2 rfl (by rw [hd]; rfl)
    have hnow : InHand cfg { A with
        asr_started_once := true
        session := (A.session.leave .dispatcher).start_turn new_gen } :=
      ⟨hhand.order, h.numbers, fun _ => hnil, h.capless⟩
    exact InHand.settle (A := { A with asr_started_once := true }) hnow (.inr accept_goes)
  · next event hd =>
    cases hst
    rw [Intake.follow, hd]
    have horder := h.order
    rw [Intake.waiting, hd] at horder
    have hring : Intake.ring cfg { A with preroll := [], preroll_samples := 0 } = [] := by
      rw [Intake.ring]
      split <;> rfl
    have hnow : InHand cfg { A with
        preroll := []
        preroll_samples := 0
        session := A.session.leave .dispatcher } := by
      refine ⟨?_, h.numbers, fun _ _ => rfl, fun _ => rfl⟩
      rw [show Intake.ring cfg { A with
        preroll := []
        preroll_samples := 0
        session := A.session.leave .dispatcher } = [] from hring]
      exact horder
    exact InHand.settle (A := { A with preroll := [], preroll_samples := 0 }) hnow open_lazily_goes
  · next event hd =>
    cases hst
    rw [Intake.follow, hd]
    have horder := h.order
    rw [Intake.waiting, hd] at horder
    have haccepts : cfg.vad = true → A.preroll = [] ∧ (A.session.asr_active = true ∨ cfg.preroll_cap = 0) :=
      h.accepts (by rw [hd]; rfl)
    obtain ⟨hact, hgoes⟩ := speech_end_goes (A.session.leave .dispatcher) event
    have hhandled : Handled cfg { A with session := (A.session.leave .dispatcher).speech_end event } := by
      refine ⟨horder, fun hreplays hoff => ?_, h.numbers, fun _ hvad => (haccepts hvad).1, h.capless⟩
      rcases (haccepts hreplays.1).2 with hon | hcap
      · exact absurd ((hact.symm.trans hoff).symm.trans hon) Bool.false_ne_true
      · exact absurd hcap (Nat.ne_of_gt hreplays.2)
    exact hhandled.settle hgoes
  · next hd =>
    cases hst
    rw [Intake.follow, hd]
    obtain ⟨horder, -⟩ := h.at_rest (by rw [hd]; rfl)
    exact Keeps.rests horder h.numbers (by intro h; cases h) h.capless rfl (h.idle (by rw [hd]; rfl))
  · cases hst

/-- A control frame. -/
theorem Keeps.frame (h : Keeps cfg A) {f : Frame} (hcontrol : ∀ event, f ≠ .audio event)
    (hst : Steps cfg.toConfig A.session (.frame f) t) : Keeps cfg { A with session := t } := by
  simp only [Steps, Session.step] at hst
  split at hst
  · next hd =>
    cases hst
    cases f with
    | audio event => exact absurd rfl (hcontrol event)
    | asr_eos => exact h.aside rfl id fun _ _ => rfl
    | asr_prepare =>
      exact h.aside schedule_dispatcher (fun ha => schedule_active ▸ ha) fun _ _ => schedule_active
    | abort =>
      have hidle : A.session.dispatcher.idle = true := by rw [hd]; rfl
      obtain ⟨horder, hempty⟩ := h.at_rest hidle
      rw [Session.frame]
      split
      · exact Keeps.rests horder h.numbers hempty h.capless rfl (h.idle hidle)
      · exact h
  · cases hst

/-- The dispatcher is in `on_speech_start`, or it is over. -/
theorem Keeps.in_start (h : Keeps cfg A) {a : Action}
    (ha : (∃ g, a = .raise_generation g) ∨ a = .unavailable ∨ a = .dispatcher_ends)
    (hst : Steps cfg.toConfig A.session a t) : Keeps cfg { A with session := t } := by
  rcases ha with ⟨g, rfl⟩ | rfl | rfl
  · simp only [Steps, Session.step] at hst
    split at hst
    · next site event hd =>
      split at hst <;> cases hst
      have hhand := h.in_hand (by rw [hd]; rfl)
      refine InHand.holds ?_ rfl fun hv => h.of_vad ?_
      · exact hhand.session rfl
      · rw [hd]
        cases site with
        | vad => rfl
        | lazily => cases hv
    · cases hst
  · simp only [Steps, Session.step] at hst
    split at hst
    · next hd =>
      cases hst
      have hhand := h.in_hand (by rw [hd]; rfl)
      refine InHand.holds ?_ rfl (by intro h; cases h)
      exact hhand.session rfl
    · next hd =>
      cases hst
      have hhand := h.in_hand (by rw [hd]; rfl)
      refine InHand.holds ?_ rfl (by intro h; cases h)
      exact hhand.session rfl
    · cases hst
  · cases hst
    refine ⟨?_, h.numbers, fun _ _ hr => (by cases hr), (by intro h; cases h), (by intro h; cases h),
      (by intro h; cases h), h.capless⟩
    change (A.given.flatten ++ []).Sublist A.received
    rw [List.append_nil]
    exact (List.sublist_append_left ..).trans h.order

/-- The step lemma. -/
theorem takes_keeps {a : Act} (hsteady : Steady cfg A a) (hst : Takes cfg A a B) (h : Keeps cfg A) :
    Keeps cfg B := by
  cases a with
  | binary event length =>
    simp only [Takes, Intake.step] at hst
    split at hst
    · next hd =>
      cases hst
      exact h.receive hd event rfl
    · cases hst
  | session a =>
    simp only [Takes, Intake.step] at hst
    split at hst
    · next hallows =>
      split at hst
      · next hsingle =>
        cases hst
        exact h.single_turn hsingle
      · obtain ⟨t, ht, rfl⟩ := Option.map_eq_some_iff.1 hst
        refine Keeps.close ?_
        cases a with
        | frame f =>
          refine h.frame (fun event heq => ?_) ht
          rw [heq] at hallows
          cases hallows
        | sent => exact h.sent ht
        | enter => exact h.enter ht
        | returns preroll => exact h.returns hallows hsteady ht
        | raise_generation g => exact h.in_start (.inl ⟨g, rfl⟩) ht
        | unavailable => exact h.in_start (.inr (.inl rfl)) ht
        | dispatcher_ends => exact h.in_start (.inr (.inr rfl)) ht
        | _ =>
          obtain ⟨hd, hact⟩ := aside_spec ht rfl
          refine h.aside hd (fun hon => ?_) fun hreplays hfeeding => ?_
          · exact hact.elim (fun hsame => hsame.symm.trans hon) fun hoff =>
              absurd (hoff.2.symm.trans hon) nofun
          · refine hact.elim id fun hoff => ?_
            cases hon : A.session.asr_active with
            | false => exact hoff.2
            | true => exact absurd (((hsteady hreplays).1 hoff.1 hon).symm.trans hfeeding) nofun
    · cases hst

end

/-- In a run in which no utterance is taken back while a frame that was for it is in hand, and none is
    opened lazily with frames in the ring, the audio is given in order, and no frame twice. -/
theorem audio_in_order {cfg : Setup} {coord : Coordinator} {as : List Act} {A : Intake}
    (h : Run (restrict (Steady cfg) (Takes cfg)) (.init coord) as A) : InOrder A ∧ Counted cfg A := by
  have hkeeps : Keeps cfg A :=
    h.invariant (I := Keeps cfg) (fun hs hst => takes_keeps hst.1 hst.2 hs) (keeps_init coord)
  have hsub : A.given.flatten.Sublist A.received := (List.sublist_append_left ..).trans hkeeps.order
  refine ⟨⟨hsub, ?_⟩, runs_counted (h.mono fun hst => hst.2)⟩
  refine List.Nodup.of_map Samples.number ((hsub.map Samples.number).nodup ?_)
  rw [hkeeps.numbers]
  exact List.nodup_range

/-- A session with a frontend VAD that keeps its turns, and up to ten samples of preroll. -/
def with_vad : Setup := ⟨⟨true, false⟩, true, 10⟩

/-- A speech start opens an utterance: nothing, or the ring, is replayed, and the frame is given. -/
def started (length generation : ℕ) (preroll : Bool) : List Act :=
  [.binary (.speech_start false) length, .session .sent, .session .enter,
    .session (.raise_generation generation), .session (.returns preroll)] ++
  (if preroll then [.session .enter, .session (.returns false)] else []) ++
  [.session .enter, .session (.returns false)]

/-- A frame for the open utterance, up to the end of the call that gives it. -/
def continued (event : Vad) (length : ℕ) : List Act :=
  [.binary event length, .session .enter, .session (.returns false)]

/-- The endpoint that the VAD has stamped leads to a final. -/
def finalised : List Act :=
  [.session (.pass false), .session .out_enter, .session .poll_reads,
    .session (.poll_returns false false), .session .out_sent, .session (.prepare_done 0),
    .session .prepared, .session .out_enter, .session (.finalize_returns true false)]

/-- Two frames before the speech start are replayed, a third one was too old. -/
def replayed : List Act :=
  [.binary .quiet 4, .binary .quiet 5, .binary .quiet 5] ++ started 6 1 true ++
    continued (.speech_end true) 6 ++ [.session .sent] ++ finalised

theorem audio_in_order_replayed :
    ∃ A, Run (restrict (Steady with_vad) (Takes with_vad)) (.init .concurrent) replayed A ∧
      A.given = [[⟨1, 5⟩, ⟨2, 5⟩], [⟨3, 6⟩], [⟨4, 6⟩]] ∧ InOrder A ∧ Counted with_vad A := by
  obtain ⟨A, hrun, hgiven⟩ := Run.of_replay_any
    (fun A a => if Steady with_vad A a then A.step with_vad a else none) (.init .concurrent) replayed
    (fun A => A.given = [[⟨1, 5⟩, ⟨2, 5⟩], [⟨3, 6⟩], [⟨4, 6⟩]]) (by decide +kernel)
  have hrun' : Run (restrict (Steady with_vad) (Takes with_vad)) (.init .concurrent) replayed A :=
    Run.restrict_mono hrun
  exact ⟨A, hrun', of_decide_eq_true hgiven, audio_in_order hrun'⟩

/-- The last frame of an utterance has been given, and while the client is told that the speech has
    ended, `asr_out_task` finalises the utterance. -/
def finalised_in_hand : List Act :=
  started 6 1 false ++ continued (.speech_end true) 6 ++ finalised ++ [.session .sent] ++ started 6 2 true

/-- So the frame is in the ring, and the next speech start has it replayed. -/
theorem last_frame_given_twice :
    ¬ ∀ (cfg : Setup) (coord : Coordinator) (as : List Act) (A : Intake),
      Run (Takes cfg) (.init coord) as A → InOrder A ∧ Counted cfg A := by
  intro hall
  obtain ⟨A, hrun, hgiven⟩ := Run.of_replay_any (Intake.step with_vad) (.init .concurrent)
    finalised_in_hand (fun A => A.given = [[⟨0, 6⟩], [⟨1, 6⟩], [⟨1, 6⟩], [⟨2, 6⟩]]) (by decide +kernel)
  have hnodup := (hall with_vad .concurrent finalised_in_hand A hrun).1.2
  rw [of_decide_eq_true hgiven] at hnodup
  exact absurd hnodup (by decide)

end LocalVoice.V2V.AsrTurns
