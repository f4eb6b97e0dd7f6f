import LocalVoice.V2V.Endpoints

/-! Which generation a finalise acts on. The dispatcher's record of the current generation lags only
    while an `on_speech_start` that has raised it is not over (`Recorded`). What `asr_out_task` holds
    of the firing endpoint's generation is the current one as long as nobody has raised it since
    (`Watched`); a step of the dispatcher that raises nothing goes unseen there (`Passes`). -/

namespace LocalVoice.V2V.AsrTurns
open LocalVoice.Lib

/-- What the dispatcher has recorded of the generations. -/
structure Recorded (s : Session) : Prop where
  le : s.asr_active_gen ≤ s.current_generation
  behind : s.dispatcher.raised = true → s.asr_active_gen < s.current_generation
  active : s.asr_active = true →
    s.dispatcher.raised = true ∨ s.asr_active_gen = s.current_generation
  new_gen : ∀ site event g, s.dispatcher = .opened site event g → g = s.current_generation
  stamped : s.endpoint_pending.isSome → s.endpoint_pending_gen.isSome

/-- An utterance is open, or being opened under a generation that is already the current one. -/
def Live (s : Session) : Prop := s.asr_active = true ∨ s.dispatcher.raised = true

/-- A step of the dispatcher that raises no generation. -/
structure Passes (s t : Session) : Prop where
  current_generation : t.current_generation = s.current_generation
  asr_out : t.asr_out = s.asr_out
  overtaken : t.overtaken = s.overtaken
  finalizes : t.finalizes = s.finalizes
  live : Live t → Live s
  recorded : Recorded s → Recorded t

/-- The generation held for the firing endpoint: the current one while it is not overtaken, and a
    smaller one afterwards. `live` is what has to hold for the endpoint to lead to a finalise. -/
structure Tracked (s : Session) (live : Prop) (belongs : Option ℕ) : Prop where
  le : ∃ g ≤ s.current_generation, belongs = some g
  overtaken : s.overtaken = true → belongs ≠ some s.current_generation
  current : s.overtaken = false → live → belongs = some s.current_generation

/-- Wherever `asr_out_task` is suspended with a generation, it is tracked. -/
def Watched (s : Session) : Prop :=
  match s.asr_out with
  | .polled g | AsrOut.sending_partial g _ => Tracked s True (some g)
  | .announcing belongs => Tracked s (Live s) belongs
  | .preparing _ _ belongs | .finalize_lock _ belongs => Tracked s True belongs
  | _ => True

/-- The steps of `asr_out_task`. -/
def Action.asr_out : Action → Bool
  | .pass _ | .turn_cancelled | .out_sent | .out_enter | .poll_reads | .poll_returns .. | .poll_fails
  | .prepared | .finalize_returns .. | .asr_out_ends => true
  | _ => false

/-- The finalise that a step starts: whose it is, and the generation it acts on. -/
def Session.starts (s : Session) : Action → List (Option ℕ × ℕ)
  | .out_enter =>
    match s.asr_out with
    | .finalize_lock _ belongs => [(belongs, s.current_generation)]
    | _ => []
  | _ => []

section
variable {cfg : Config} {s t u : Session} {event : Vad} {d : Dispatcher}

/-! The dispatcher's steps -/

theorem Passes.trans (h : Passes s t) (h' : Passes t u) : Passes s u where
  current_generation := h'.current_generation.trans h.current_generation
  asr_out := h'.asr_out.trans h.asr_out
  overtaken := h'.overtaken.trans h.overtaken
  finalizes := h'.finalizes.trans h.finalizes
  live := fun hu => h.live (h'.live hu)
  recorded := fun hs => h'.recorded (h.recorded hs)

theorem Passes.refl (s : Session) : Passes s s := ⟨rfl, rfl, rfl, rfl, id, id⟩

/-- The dispatcher moves on and knows as much as before. -/
theorem passes_stop (hd : ∀ site event g, d ≠ .opened site event g)
    (hraised : d.raised = s.dispatcher.raised) : Passes s { s with dispatcher := d } := by
  refine ⟨rfl, rfl, rfl, rfl, ?_, fun h => ⟨h.le, ?_, ?_, ?_, h.stamped⟩⟩
  · simp [Live, hraised]
  · simpa [hraised] using h.behind
  · simpa [hraised] using h.active
  · intro site event g heq
    exact absurd heq (hd site event g)

theorem passes_move (hs : s.dispatcher.raised = false) (hd : d.raised = false) :
    Passes s { s with dispatcher := d } := by
  refine passes_stop ?_ (hd.trans hs.symm)
  rintro site event g rfl
  simp [Dispatcher.raised] at hd

theorem passes_stamp (e : Endpoint) : Passes s (s.stamp e) :=
  ⟨rfl, rfl, rfl, rfl, id, fun h => ⟨h.le, h.behind, h.active, h.new_gen, fun _ => rfl⟩⟩

theorem passes_clear_endpoint : Passes s s.clear_endpoint :=
  ⟨rfl, rfl, rfl, rfl, id, fun h => ⟨h.le, h.behind, h.active, h.new_gen, fun hn => hn⟩⟩

theorem passes_leave (h : Holder) : Passes s (s.leave h) :=
  ⟨rfl, rfl, rfl, rfl, id, fun h => ⟨h.le, h.behind, h.active, h.new_gen, h.stamped⟩⟩

theorem passes_schedule : Passes s s.schedule_asr_prepare := by
  unfold Session.schedule_asr_prepare
  split
  · exact .refl s
  · split
    · exact .refl s
    · exact ⟨rfl, rfl, rfl, rfl, id, fun h => ⟨h.le, h.behind, h.active, h.new_gen, h.stamped⟩⟩

/-- With no utterance open there is nothing to be recorded. -/
theorem passes_inactive (hd : d.raised = false) :
    Passes s { s with asr_active := false, dispatcher := d } := by
  refine ⟨rfl, rfl, rfl, rfl, ?_, fun h => ⟨h.le, ?_, ?_, ?_, h.stamped⟩⟩
  · simp [Live, hd]
  · simp [hd]
  · simp
  · rintro site event g rfl
    simp [Dispatcher.raised] at hd

@[simp] theorem schedule_dispatcher : s.schedule_asr_prepare.dispatcher = s.dispatcher := by
  unfold Session.schedule_asr_prepare
  split
  · rfl
  · split <;> rfl

theorem passes_speech_end (hs : s.dispatcher.raised = false) : Passes s (s.speech_end event) := by
  cases event with
  | quiet | speech_start => exact passes_move hs rfl
  | speech_end may =>
    cases may with
    | false => exact passes_move hs rfl
    | true =>
      have hstamp : Passes s (s.schedule_asr_prepare.stamp .vad) :=
        passes_schedule.trans (passes_stamp .vad)
      refine hstamp.trans (passes_move ?_ rfl)
      rw [Session.stamp, schedule_dispatcher, hs]

theorem passes_accept (hs : s.dispatcher.raised = false) : Passes s (s.accept event) := by
  unfold Session.accept
  split
  · exact passes_move hs rfl
  · exact passes_speech_end hs

theorem passes_open_lazily (hs : s.dispatcher.raised = false) :
    Passes s (s.open_lazily cfg event) := by
  unfold Session.open_lazily
  split
  · exact passes_move hs rfl
  · exact passes_accept hs

theorem passes_frame {f : Frame} (hs : s.dispatcher.raised = false) : Passes s (s.frame cfg f) := by
  cases f with
  | audio event =>
    simp only [Session.frame]
    split
    · exact passes_move hs rfl
    · exact passes_open_lazily hs
  | asr_eos => exact passes_stamp .client_eos
  | asr_prepare => exact passes_schedule
  | abort =>
    simp only [Session.frame]
    split
    · exact passes_move hs rfl
    · exact .refl s

/-- `on_speech_start` has returned: what it raised is recorded. -/
theorem passes_start_turn {site : Site} {g : ℕ} (hs : s.dispatcher = .opened site event g)
    (hd : d.raised = false) : Passes s { s.start_turn g with dispatcher := d } := by
  refine ⟨rfl, rfl, rfl, rfl, fun _ => .inr ?_, fun h => ?_⟩
  · rw [hs]
    rfl
  · have hg := h.new_gen site event g hs
    refine ⟨Nat.le_of_eq hg, by simp [hd], fun _ => .inr hg, ?_, fun hn => hn⟩
    rintro site event g rfl
    simp [Dispatcher.raised] at hd

theorem start_turn_accept (g : ℕ) : (s.start_turn g).accept event =
    { s.start_turn g with dispatcher := .accept_lock event } := if_pos rfl

theorem start_turn_open_lazily (g : ℕ) : (s.start_turn g).open_lazily cfg event =
    { s.start_turn g with dispatcher := .accept_lock event } := by
  have hact : ¬ ((cfg.vad = false ∨ cfg.backend_endpoint) ∧ (s.start_turn g).asr_active = false ∧
      (s.start_turn g).endpoint_pending = none) := by
    rintro ⟨_, hf, _⟩
    cases hf
  rw [Session.open_lazily, if_neg hact, start_turn_accept]

theorem passes_skip_turn (site : Site) : Passes s (s.skip_turn site) := by
  cases site with
  | vad => exact passes_clear_endpoint.trans (passes_inactive rfl)
  | lazily => exact passes_inactive rfl

theorem entered_raised (h : Session.entered s.dispatcher = some d) :
    s.dispatcher.raised = false ∧ d.raised = false := by
  unfold Session.entered at h
  split at h <;> cases h <;> simp_all [Dispatcher.raised]

/-- A step of the dispatcher, or of other tasks, raises the generation or passes unseen. -/
theorem dispatcher_passes {a : Action} (h : Steps cfg s a t) (ha : a.asr_out = false)
    (hraise : ∀ g, a ≠ .raise_generation g) : Passes s t := by
  cases a with
  | frame f =>
    simp only [Steps, Session.step] at h
    split at h
    · next hd =>
      cases h
      exact passes_frame (by rw [hd]; rfl)
    · cases h
  | sent =>
    simp only [Steps, Session.step] at h
    split at h
    · next hd =>
      split at h <;> cases h
      · exact passes_open_lazily (by rw [hd]; rfl)
      · exact passes_move (by rw [hd]; rfl) rfl
    · cases h
      exact passes_skip_turn _
    · next hd =>
      cases h
      exact passes_move (by rw [hd]; rfl) rfl
    · cases h
  | enter =>
    simp only [Steps, Session.step] at h
    split at h
    · next d coord hd _ =>
      cases h
      obtain ⟨hold, hnew⟩ := entered_raised hd
      have hmove := passes_move hold hnew
      exact ⟨rfl, rfl, rfl, rfl, hmove.live, fun hs =>
        have hs := hmove.recorded hs
        ⟨hs.le, hs.behind, hs.active, hs.new_gen, hs.stamped⟩⟩
    · cases h
  | returns preroll =>
    simp only [Steps, Session.step] at h
    split at h
    · next hd =>
      have hleave := passes_leave (s := s) .dispatcher
      split at h <;> cases h
      · exact hleave.trans (passes_start_turn hd rfl)
      · rw [start_turn_open_lazily]
        exact hleave.trans (passes_start_turn hd rfl)
    · next hd =>
      cases h
      rw [start_turn_accept]
      exact (passes_leave .dispatcher).trans (passes_start_turn hd rfl)
    · next hd =>
      cases h
      exact (passes_leave .dispatcher).trans (passes_open_lazily (by rw [Session.leave, hd]; rfl))
    · next hd =>
      cases h
      exact (passes_leave .dispatcher).trans (passes_speech_end (by rw [Session.leave, hd]; rfl))
    · next hd =>
      cases h
      have hidle := passes_inactive (s := s) (d := .receive) rfl
      exact ⟨rfl, rfl, rfl, rfl, hidle.live, fun hs =>
        have hs := hidle.recorded hs
        ⟨hs.le, hs.behind, hs.active, hs.new_gen, hs.stamped⟩⟩
    · cases h
  | unavailable =>
    simp only [Steps, Session.step] at h
    split at h
    · next hd =>
      cases h
      exact (passes_leave .dispatcher).trans (passes_stop (by simp) (by rw [Session.leave, hd]; rfl))
    · next hd =>
      cases h
      exact (passes_leave .dispatcher).trans (passes_stop (by simp) (by rw [Session.leave, hd]; rfl))
    · cases h
  | dispatcher_ends =>
    obtain rfl := Option.some.inj h
    exact (passes_leave .dispatcher).trans (passes_stop (by simp) rfl)
  | prepare_done k =>
    simp only [Steps, Session.step] at h
    split at h <;> cases h
    exact ⟨rfl, rfl, rfl, rfl, id, fun h => ⟨h.le, h.behind, h.active, h.new_gen, h.stamped⟩⟩
  | elsewhere_enters =>
    simp only [Steps, Session.step] at h
    obtain ⟨coord, _, rfl⟩ := Option.map_eq_some_iff.1 h
    exact ⟨rfl, rfl, rfl, rfl, id, fun h => ⟨h.le, h.behind, h.active, h.new_gen, h.stamped⟩⟩
  | elsewhere_leaves =>
    obtain rfl := Option.some.inj h
    exact passes_leave .elsewhere
  | raise_generation g => exact absurd rfl (hraise g)
  | pass | turn_cancelled | out_sent | out_enter | poll_reads | poll_returns | poll_fails | prepared
  | finalize_returns | asr_out_ends => cases ha

theorem Tracked.of_passes {live live' : Prop} {b : Option ℕ} (hs : Tracked s live b)
    (h : Passes s t) (hlive : live' → live) : Tracked t live' b := by
  constructor <;> simp only [h.overtaken, h.current_generation]
  · exact hs.le
  · exact hs.overtaken
  · exact fun ho hl => hs.current ho (hlive hl)

theorem Watched.of_passes (hs : Watched s) (h : Passes s t) : Watched t := by
  unfold Watched at hs ⊢
  rw [h.asr_out]
  split <;> simp_all only
  · exact hs.of_passes h id
  · exact hs.of_passes h id
  · exact hs.of_passes h h.live
  · exact hs.of_passes h id
  · exact hs.of_passes h id

/-- What was current is not, once the generation is raised. -/
theorem Tracked.raise {live live' : Prop} {b : Option ℕ} (hs : Tracked s live b)
    (ho : t.overtaken = true) (hlt : s.current_generation < t.current_generation) :
    Tracked t live' b := by
  obtain ⟨g, hg, rfl⟩ := hs.le
  refine ⟨⟨g, by omega, rfl⟩, fun _ heq => ?_, fun hno => ?_⟩
  · obtain rfl := Option.some.inj heq
    omega
  · simp [ho] at hno

theorem raise_keeps {g : ℕ} (h : Steps cfg s (.raise_generation g) t) (hrec : Recorded s)
    (hs : Watched s) : Recorded t ∧ Watched t ∧ t.finalizes = s.finalizes := by
  simp only [Steps, Session.step] at h
  split at h
  · split at h
    · next hlt =>
      cases h
      have hle := hrec.le
      refine ⟨⟨?_, ?_, fun _ => .inl rfl, ?_, hrec.stamped⟩, ?_, rfl⟩
      · exact Nat.le_trans hle (Nat.le_of_lt hlt)
      · exact fun _ => Nat.lt_of_le_of_lt hle hlt
      · rintro site event g' heq
        cases heq
        rfl
      · unfold Watched at hs ⊢
        dsimp only
        split <;> simp_all only
        all_goals exact hs.raise rfl hlt
    · cases h
  · cases h

/-! The steps of `asr_out_task` -/

/-- What a step of `asr_out_task` leaves of the dispatcher's record. -/
structure Kept (s t : Session) : Prop where
  current_generation : t.current_generation = s.current_generation
  dispatcher : t.dispatcher = s.dispatcher
  asr_active_gen : t.asr_active_gen = s.asr_active_gen
  asr_active : t.asr_active = true → s.asr_active = true
  endpoint : t.endpoint_pending.isSome → t.endpoint_pending = s.endpoint_pending ∧
    t.endpoint_pending_gen = s.endpoint_pending_gen
  finalizes : t.finalizes = s.finalizes

theorem Kept.recorded (h : Kept s t) (hs : Recorded s) : Recorded t := by
  constructor
  case le =>
    rw [h.asr_active_gen, h.current_generation]
    exact hs.le
  case behind =>
    rw [h.dispatcher, h.asr_active_gen, h.current_generation]
    exact hs.behind
  case active =>
    rw [h.dispatcher, h.asr_active_gen, h.current_generation]
    exact fun hact => hs.active (h.asr_active hact)
  case new_gen =>
    rw [h.dispatcher, h.current_generation]
    exact hs.new_gen
  case stamped =>
    intro hsome
    obtain ⟨hp, hg⟩ := h.endpoint hsome
    rw [hg]
    exact hs.stamped (hp ▸ hsome)

theorem kept_fire (b : Option ℕ) : Kept s (s.fire b) := by
  unfold Session.fire
  split
  · split
    · split <;> exact ⟨rfl, rfl, rfl, id, fun _ => ⟨rfl, rfl⟩, rfl⟩
    · exact ⟨rfl, rfl, rfl, id, fun _ => ⟨rfl, rfl⟩, rfl⟩
  · exact ⟨rfl, rfl, rfl, id, fun _ => ⟨rfl, rfl⟩, rfl⟩

theorem kept_clear_endpoint : Kept s s.clear_endpoint := ⟨rfl, rfl, rfl, id, nofun, rfl⟩

theorem kept_drop_stale : Kept s s.drop_stale := by
  unfold Session.drop_stale
  split
  · exact kept_clear_endpoint
  · exact ⟨rfl, rfl, rfl, id, fun _ => ⟨rfl, rfl⟩, rfl⟩

theorem kept_drop_turn : Kept s s.drop_turn := ⟨rfl, rfl, rfl, nofun, nofun, rfl⟩

theorem kept_leave (h : Holder) : Kept s (s.leave h) :=
  ⟨rfl, rfl, rfl, id, fun _ => ⟨rfl, rfl⟩, rfl⟩

/-- Where `asr_out_task` is suspended is no part of the record. -/
theorem Kept.move (h : Kept s t) (out : AsrOut) (overtaken : Bool) :
    Kept s { t with asr_out := out, overtaken := overtaken } :=
  ⟨h.current_generation, h.dispatcher, h.asr_active_gen, h.asr_active, h.endpoint, h.finalizes⟩

theorem kept_move (out : AsrOut) : Kept s { s with asr_out := out } :=
  ⟨rfl, rfl, rfl, id, fun _ => ⟨rfl, rfl⟩, rfl⟩

theorem Kept.trans (h : Kept s t) (h' : Kept t u) : Kept s u where
  current_generation := h'.current_generation.trans h.current_generation
  dispatcher := h'.dispatcher.trans h.dispatcher
  asr_active_gen := h'.asr_active_gen.trans h.asr_active_gen
  asr_active := fun hu => h.asr_active (h'.asr_active hu)
  endpoint := by
    intro hu
    obtain ⟨hp, hg⟩ := h'.endpoint hu
    obtain ⟨hp', hg'⟩ := h.endpoint (hp ▸ hu)
    exact ⟨hp.trans hp', hg.trans hg'⟩
  finalizes := h'.finalizes.trans h.finalizes

theorem kept_endpoint (is_endpoint : Bool) (g : ℕ) : Kept s (s.endpoint is_endpoint g) := by
  unfold Session.endpoint
  split
  · exact kept_clear_endpoint.move _ _
  · exact (kept_clear_endpoint.move s.asr_out _).trans (kept_fire _)
  · split
    · exact kept_clear_endpoint.move _ s.overtaken
    · exact kept_drop_stale.trans (kept_move .head)

/-- What survives the gate is stamped with the recorded generation. -/
theorem drop_stale_some {e : Endpoint} (hs : Recorded s) (h : s.drop_stale.endpoint_pending = some e) :
    s.endpoint_pending_gen = some s.asr_active_gen := by
  unfold Session.drop_stale at h
  split at h
  · cases h
  · next hgate =>
    have hgen := hs.stamped (by rw [h]; rfl)
    exact Decidable.byContradiction fun hne => hgate ⟨by rw [h]; rfl, hgen, hne⟩

/-- A stamp that passes the gate is tracked from there on. -/
theorem tracked_stamp (hs : Recorded s) (hgen : t.current_generation = s.current_generation)
    (ho : t.overtaken = s.dispatcher.raised) (hd : t.dispatcher = s.dispatcher)
    (hact : t.asr_active = s.asr_active) : Tracked t (Live t) (some s.asr_active_gen) := by
  constructor
  · exact ⟨_, hgen ▸ hs.le, rfl⟩
  · intro hraised heq
    have hlt := hs.behind (ho ▸ hraised)
    rw [hgen] at heq
    obtain heq := Option.some.inj heq
    omega
  · intro hno hlive
    rw [hgen]
    rcases hlive with hlive | hlive
    · rcases hs.active (hact ▸ hlive) with hraised | heq
      · rw [ho, hraised] at hno
        cases hno
      · rw [heq]
    · rw [hd, ← ho, hno] at hlive
      cases hlive

/-- From the check on the endpoint does lead to a finalise. -/
theorem watched_fire {b : Option ℕ} (h : Tracked s (Live s) b) : Watched (s.fire b) := by
  unfold Session.fire
  split
  · next hact =>
    have hlive : Tracked s True b := ⟨h.le, h.overtaken, fun ho _ => h.current ho (.inl hact)⟩
    split
    · split <;> exact ⟨hlive.le, hlive.overtaken, hlive.current⟩
    · exact ⟨hlive.le, hlive.overtaken, hlive.current⟩
  · trivial

theorem watched_endpoint {is_endpoint : Bool} {g : ℕ} (hs : Recorded s)
    (h : is_endpoint = true → Tracked s True (some g)) : Watched (s.endpoint is_endpoint g) := by
  unfold Session.endpoint
  split
  · next hp =>
    rw [drop_stale_some hs hp]
    exact tracked_stamp hs rfl rfl rfl rfl
  · next hp =>
    rw [drop_stale_some hs hp]
    exact watched_fire (tracked_stamp hs rfl rfl rfl rfl)
  · split
    · next hfired =>
      obtain ⟨hle, hover, hcur⟩ := h hfired.1
      exact ⟨hle, hover, fun ho _ => hcur ho trivial⟩
    · trivial

theorem kept_finalized (finalize_gen : ℕ) (accepted idle : Bool) :
    Kept s (s.finalized finalize_gen accepted idle) := by
  unfold Session.finalized
  split
  · split
    · exact ⟨rfl, rfl, rfl, nofun, fun _ => ⟨rfl, rfl⟩, rfl⟩
    · exact kept_move .sending
  · split
    · exact kept_drop_turn.trans (kept_move .head)
    · exact kept_move .head

theorem watched_finalized (finalize_gen : ℕ) (accepted idle : Bool) :
    Watched (s.finalized finalize_gen accepted idle) := by
  unfold Session.finalized
  split <;> split <;> trivial

/-- A step of `asr_out_task` keeps the record and the watch, and notes the finalise it starts. -/
theorem asr_out_keeps {a : Action} (h : Steps cfg s a t) (ha : a.asr_out = true)
    (hrec : Recorded s) (hs : Watched s) :
    Recorded t ∧ Watched t ∧ t.finalizes = s.finalizes ++ s.starts a := by
  have hkept : ∀ {u : Session}, Kept s u → Watched u → s.starts a = [] →
      Recorded u ∧ Watched u ∧ u.finalizes = s.finalizes ++ s.starts a := by
    intro u hk hw hno
    rw [hno, List.append_nil]
    exact ⟨hk.recorded hrec, hw, hk.finalizes⟩
  cases a with
  | pass expired =>
    simp only [Steps, Session.step] at h
    split at h
    · split at h
      · split at h <;> cases h
        exact hkept (kept_move .timed_out) trivial rfl
      · cases h
        unfold Session.loop
        split
        · exact hkept (kept_move .poll_lock) trivial rfl
        · exact hkept (kept_endpoint false 0) (watched_endpoint hrec nofun) rfl
    · cases h
  | turn_cancelled =>
    simp only [Steps, Session.step] at h
    split at h <;> cases h
    exact hkept (kept_drop_turn.trans (kept_move .sending)) trivial rfl
  | out_sent =>
    simp only [Steps, Session.step] at h
    split at h
    · next g is_endpoint ho =>
      cases h
      simp only [Watched, ho] at hs
      exact hkept (kept_endpoint is_endpoint g) (watched_endpoint hrec fun _ => hs) rfl
    · next b ho =>
      cases h
      simp only [Watched, ho] at hs
      exact hkept (kept_fire b) (watched_fire hs) rfl
    · cases h
      exact hkept (kept_move .head) trivial rfl
    · cases h
  | out_enter =>
    simp only [Steps, Session.step] at h
    split at h
    · next ho _ =>
      cases h
      refine hkept ⟨rfl, rfl, rfl, id, fun _ => ⟨rfl, rfl⟩, rfl⟩ trivial ?_
      simp [Session.starts, ho]
    · next finalize_gen b coord ho _ =>
      cases h
      refine ⟨⟨hrec.le, hrec.behind, hrec.active, hrec.new_gen, hrec.stamped⟩, trivial, ?_⟩
      simp [Session.starts, ho]
    · cases h
  | poll_reads =>
    simp only [Steps, Session.step] at h
    split at h <;> cases h
    refine hkept ⟨rfl, rfl, rfl, id, fun _ => ⟨rfl, rfl⟩, rfl⟩ ?_ rfl
    exact ⟨⟨_, Nat.le_refl _, rfl⟩, nofun, fun _ _ => rfl⟩
  | poll_returns is_partial is_endpoint =>
    simp only [Steps, Session.step] at h
    split at h
    · next g ho =>
      cases h
      have hleft := kept_leave (s := s) .asr_out
      simp only [Watched, ho] at hs
      have htr : Tracked (s.leave .asr_out) True (some g) := ⟨hs.le, hs.overtaken, hs.current⟩
      unfold Session.polled
      split
      · exact hkept (hleft.trans (kept_move _)) ⟨htr.le, htr.overtaken, htr.current⟩ rfl
      · refine hkept (hleft.trans (kept_endpoint is_endpoint g)) ?_ rfl
        exact watched_endpoint (hleft.recorded hrec) fun _ => htr
    · cases h
  | poll_fails =>
    simp only [Steps, Session.step] at h
    have hleft := kept_leave (s := s) .asr_out
    have hw : Watched ((s.leave .asr_out).endpoint false 0) :=
      watched_endpoint (hleft.recorded hrec) nofun
    split at h <;> cases h <;> exact hkept (hleft.trans (kept_endpoint false 0)) hw rfl
  | prepared =>
    simp only [Steps, Session.step] at h
    split at h
    · next ho =>
      split at h <;> cases h
      simp only [Watched, ho] at hs
      exact hkept (kept_move _) ⟨hs.le, hs.overtaken, hs.current⟩ rfl
    · cases h
  | finalize_returns accepted idle =>
    simp only [Steps, Session.step] at h
    split at h
    · next finalize_gen _ =>
      cases h
      exact hkept ((kept_leave .asr_out).trans (kept_finalized finalize_gen accepted idle))
        (watched_finalized finalize_gen accepted idle) rfl
    · cases h
  | asr_out_ends =>
    obtain rfl := Option.some.inj h
    exact hkept ((kept_leave .asr_out).trans (kept_move .ended)) trivial rfl
  | frame | sent | enter | raise_generation | returns | unavailable | dispatcher_ends
  | prepare_done | elsewhere_enters | elsewhere_leaves => cases ha

theorem step_keeps {a : Action} (h : Steps cfg s a t) (hrec : Recorded s) (hs : Watched s) :
    Recorded t ∧ Watched t ∧ t.finalizes = s.finalizes ++ s.starts a := by
  cases ha : a.asr_out with
  | true => exact asr_out_keeps h ha hrec hs
  | false =>
    have hno : s.starts a = [] := by
      cases a <;> first | rfl | cases ha
    rw [hno, List.append_nil]
    by_cases hraise : ∃ g, a = .raise_generation g
    · obtain ⟨g, rfl⟩ := hraise
      exact raise_keeps h hrec hs
    · have hp := dispatcher_passes h ha fun g heq => hraise ⟨g, heq⟩
      exact ⟨hp.recorded hrec, hs.of_passes hp, hp.finalizes⟩

end

/-! Runs -/

theorem runs_keep {cfg : Config} {coord : Coordinator} {as : List Action} {s : Session}
    (h : Runs cfg coord as s) : Recorded s ∧ Watched s := by
  have hinit : Recorded (.init coord) ∧ Watched (.init coord) :=
    ⟨⟨Nat.le_refl 0, nofun, nofun, nofun, nofun⟩, trivial⟩
  refine h.invariant (I := fun s => Recorded s ∧ Watched s) ?_ hinit
  rintro s a t ⟨hrec, hs⟩ hst
  obtain ⟨hrec, hs, _⟩ := step_keeps hst hrec hs
  exact ⟨hrec, hs⟩

/-- No finalise starts for an endpoint that was overtaken. -/
def Undisturbed (s : Session) (a : Action) : Prop := s.starts a ≠ [] → s.overtaken = false

instance (s : Session) (a : Action) : Decidable (Undisturbed s a) :=
  inferInstanceAs (Decidable (_ → _))

/-- A finalise that starts acts on the generation it is for if nobody has overtaken it. -/
theorem starts_own_iff {s : Session} {a : Action} (hs : Watched s) :
    (∀ f ∈ s.starts a, f.1 = some f.2) ↔ Undisturbed s a := by
  unfold Undisturbed Session.starts
  split
  · split
    · next b ho =>
      simp only [Watched, ho] at hs
      constructor
      · intro hall _
        have heq := hall _ (List.mem_singleton.2 rfl)
        cases hover : s.overtaken with
        | false => rfl
        | true => exact absurd heq (hs.overtaken hover)
      · intro hno f hf
        obtain rfl := List.mem_singleton.1 hf
        exact hs.current (hno (by simp)) trivial
    · simp
  · simp

theorem runs_det {cfg : Config} {coord : Coordinator} {as : List Action} {s t : Session}
    (h : Runs cfg coord as s) (h' : Runs cfg coord as t) : s = t :=
  h.det h' fun _ _ _ _ hst hst' => Option.some.inj (hst.symm.trans hst')

/-- Every finalise of a run acts on the generation its endpoint belongs to, if and only if none
    starts for an endpoint that an `on_speech_start` has overtaken. -/
theorem finalizes_own_utterance_iff {cfg : Config} {coord : Coordinator} {as : List Action}
    {s : Session} (h : Runs cfg coord as s) :
    (∀ f ∈ s.finalizes, f.1 = some f.2) ↔ Run (restrict Undisturbed (Steps cfg)) (.init coord) as s := by
  induction h with
  | nil => exact ⟨fun _ => .nil, fun _ f hf => by cases hf⟩
  | @snoc as s t a hrun hst ih =>
    obtain ⟨hrec, hs⟩ := runs_keep hrun
    obtain ⟨_, _, hfin⟩ := step_keeps hst hrec hs
    have hown := starts_own_iff (a := a) hs
    rw [hfin]
    constructor
    · intro hall
      refine .snoc (ih.1 fun f hf => hall f (List.mem_append_left _ hf)) ⟨hown.1 ?_, hst⟩
      exact fun f hf => hall f (List.mem_append_right _ hf)
    · intro hrun' f hf
      obtain ⟨u, hu, hok, hstep⟩ := hrun'.concat_inv
      have hu' : Run (Steps cfg) (.init coord) as u := hu.mono fun hst => hst.2
      obtain rfl := runs_det hu' hrun
      rcases List.mem_append.1 hf with hf | hf
      · exact ih.2 hu f hf
      · exact hown.2 hok f hf

/-- A session with a frontend VAD, on a backend without endpoints of its own. -/
def frontend : Config := ⟨true, false⟩

/-- An utterance under generation 1 is opened and ended, and its endpoint passes the gate. -/
def endpoint_passed : List Action :=
  [.frame (.audio (.speech_start false)), .sent, .enter, .raise_generation 1, .returns false,
    .enter, .returns false, .frame (.audio (.speech_end true)), .enter, .returns false,
    .pass false, .out_enter, .poll_reads, .poll_returns false false, .sent]

/-- While `asr_endpoint` is being sent the user speaks again: the next utterance is finalised. -/
def spoken_over : List Action :=
  endpoint_passed ++
    [.frame (.audio (.speech_start false)), .sent, .enter, .raise_generation 2, .returns false,
      .out_sent, .out_enter]

theorem next_utterance_finalized :
    ¬ ∀ (cfg : Config) (coord : Coordinator) (as : List Action) (s : Session),
      Runs cfg coord as s → ∀ f ∈ s.finalizes, f.1 = some f.2 := by
  intro hall
  have hrun : Runs frontend .concurrent spoken_over
      { Session.init .concurrent with
        current_generation := 2, asr_active := true, asr_active_gen := 2, prepares := [false],
        dispatcher := .accept_lock (.speech_start false), asr_out := .finalizing 2,
        overtaken := true, finalizes := [(some 1, 2)] } := Run.of_replay rfl
  exact absurd (hall _ _ _ _ hrun) (by decide)

/-- The user speaks again once the finalise has started. -/
def spoken_after : List Action :=
  endpoint_passed ++
    [.out_sent, .prepare_done 0, .prepared, .out_enter, .frame (.audio (.speech_start false)),
      .sent, .enter, .raise_generation 2]

theorem finalizes_own_utterance_spoken_after :
    ∃ s, Runs frontend .concurrent spoken_after s ∧ s.current_generation = 2 ∧
      s.finalizes = [(some 1, 1)] ∧ ∀ f ∈ s.finalizes, f.1 = some f.2 := by
  have hrun : Runs frontend .concurrent spoken_after
      { Session.init .concurrent with
        current_generation := 2, asr_active := true, asr_active_gen := 1,
        asr_prepare_task := some 0, asr_prepare_gen := some 1, prepares := [true],
        dispatcher := .opened .vad (.speech_start false) 2, asr_out := .finalizing 1,
        overtaken := true, finalizes := [(some 1, 1)] } := Run.of_replay rfl
  exact ⟨_, hrun, rfl, rfl, (finalizes_own_utterance_iff hrun).2 (Run.of_replay_if rfl)⟩

end LocalVoice.V2V.AsrTurns
