import LocalVoice.CapabilityResolver.Resolve

/-! What `resolve` promises about its numbers. All of them stay under what the backends declare, and
    the queue takes a burst of all admitted sessions. Diarization is one more ceiling in the
    aggregate, so it lowers the session ceiling or leaves it, unless the backends have none: then the
    ceiling was the default of the target, and the cap of diarization takes its place
    (`diarization_raises`). -/

namespace LocalVoice.CapabilityResolver
open LocalVoice.Lib

/-- The smaller of two ceilings, none being no ceiling. -/
def meet : Option ℕ → Option ℕ → Option ℕ
  | some a, some b => some (min a b)
  | a, b => a.or b

@[simp] theorem meet_none (a : Option ℕ) : meet a none = a := by cases a <;> rfl

/-! ### Closed forms -/

/-- The session ceiling as a number: what was asked for or the default of the target, under the
    ceiling of the backends. -/
def session_number (ceiling asked : Option ℕ) (default : ℕ) : ℕ :=
  match asked with
  | some n => ceiling.elim n (min n)
  | none => ceiling.getD default

theorem clamp_session_eq (ceiling : Option ℕ × String) (label : String) (n : ℕ) :
    (clamp_session ceiling label n).1 = some (ceiling.1.elim n (min n)) := by
  unfold clamp_session
  cases ceiling.1 with
  | none => rfl
  | some c =>
    by_cases h : c < n
    · simp [h, Nat.min_eq_right (Nat.le_of_lt h)]
    · simp [h, Nat.min_eq_left (Nat.le_of_not_lt h)]

theorem session_eq (s : Setup) (ceiling : Option ℕ × String) (e p : Option ℕ) :
    (s.session ceiling e p).1 =
      some (session_number ceiling.1 (e.or p) (target_default s.infer_target)) := by
  unfold Setup.session
  cases e with
  | some n => exact clamp_session_eq ceiling _ n
  | none =>
    cases p with
    | some n => exact clamp_session_eq ceiling _ n
    | none => cases ceiling.1 <;> simp [session_number]

/-- The aggregate with a third descriptor. -/
theorem aggregate_ceiling_extra (asr_cap tts_cap d : ConcurrencyCapability) :
    (aggregate_ceiling asr_cap tts_cap [("diar", d)]).1 =
      meet (aggregate_ceiling asr_cap tts_cap []).1 d.max_concurrent := by
  cases ha : asr_cap.max_concurrent <;> cases ht : tts_cap.max_concurrent <;>
    cases hd : d.max_concurrent <;> simp [aggregate_ceiling, meet, ha, ht, hd, List.min?]

/-- Diarization is one more ceiling among those of the backends, where there are any. -/
theorem ceiling_diar (s : Setup) (d : ConcurrencyCapability) :
    (s.ceiling (some d)).1 = if s.has_declared_backends then
      meet (s.ceiling none).1 d.max_concurrent else (s.ceiling none).1 := by
  unfold Setup.ceiling
  by_cases hcross : (s.cross_modal_overlap && s.has_asr_backend && s.has_tts_backend) = true
  · have hboth : s.has_declared_backends = true := by
      simp only [Bool.and_eq_true] at hcross
      simp [Setup.has_declared_backends, hcross.1.2]
    simp only [hcross, hboth, if_true, Option.bind_some, Option.bind_none]
    cases d.max_concurrent with
    | none => simp
    | some k => cases s.modal_sum <;> rfl
  · by_cases hdecl : s.has_declared_backends = true
    · simp only [hcross, hdecl, if_true, if_false, Bool.false_eq_true]
      exact aggregate_ceiling_extra _ _ d
    · simp [hcross, hdecl]

/-- The width the descriptor allows, for a known session ceiling. -/
theorem gate_width_eq (cap : ConcurrencyCapability) (n : ℕ) : gate_width cap (some n) =
    if cap.supports_parallel then cap.max_concurrent.getD (max 1 n) else 1 := by
  unfold gate_width
  by_cases hp : cap.supports_parallel = true
  · simp only [hp, if_true]
    cases hm : cap.max_concurrent with
    | some m =>
      have hpos := cap.positive m hm
      simp [Option.filter_some, Nat.ne_of_gt hpos]
    | none =>
      by_cases hn : n = 0
      · simp [Option.filter_some, hn]
      · have hone : max 1 n = n := Nat.max_eq_right (Nat.pos_of_ne_zero hn)
        simp [Option.filter_some, hn, hone]
  · simp [hp]

theorem infer_concurrency_eq (cap : ConcurrencyCapability) (session env_infer : Option ℕ) :
    (infer_concurrency cap session env_infer).1 =
      env_infer.elim (gate_width cap session) (min (gate_width cap session)) := by
  unfold infer_concurrency
  cases env_infer with
  | none => rfl
  | some n =>
    by_cases h : gate_width cap session < n
    · simp [h, Nat.min_eq_left (Nat.le_of_lt h)]
    · simp [h, Nat.min_eq_right (Nat.le_of_not_lt h)]

/-! ### Bounds -/

theorem gate_width_le {cap : ConcurrencyCapability} {m : ℕ} (h : cap.max_concurrent = some m)
    (n : ℕ) : gate_width cap (some n) ≤ m := by
  rw [gate_width_eq, h]
  split
  · exact Nat.le_refl m
  · exact cap.positive m h

theorem infer_le_gate_width (cap : ConcurrencyCapability) (session env_infer : Option ℕ) :
    (infer_concurrency cap session env_infer).1 ≤ gate_width cap session := by
  rw [infer_concurrency_eq]
  cases env_infer with
  | none => exact Nat.le_refl _
  | some n => exact Nat.min_le_left _ _

/-- A serial backend has a gate of width 1. -/
theorem infer_serial {cap : ConcurrencyCapability} (h : cap.supports_parallel = false)
    (session : Option ℕ) {env_infer : Option ℕ} (hpos : ∀ n, env_infer = some n → 0 < n) :
    (infer_concurrency cap session env_infer).1 = 1 := by
  have hw : gate_width cap session = 1 := by simp [gate_width, h]
  rw [infer_concurrency_eq, hw]
  cases env_infer with
  | none => rfl
  | some n => exact Nat.min_eq_left (hpos n rfl)

theorem executor_pos (cap : ConcurrencyCapability) (name : String) (env : Env) :
    1 ≤ (resolve_executor_max_workers cap name env).1 := by
  unfold resolve_executor_max_workers
  split
  · dsimp only
    split <;> omega
  · dsimp only
    omega
  · exact Nat.le_max_left _ _
  · decide

theorem executor_le {cap : ConcurrencyCapability} {m : ℕ} (h : cap.max_concurrent = some m)
    (name : String) (env : Env) : (resolve_executor_max_workers cap name env).1 ≤ m := by
  have hpos := cap.positive m h
  unfold resolve_executor_max_workers
  rw [h]
  cases worker_env (PyText.lower name) env with
  | none => exact Nat.max_le.2 ⟨hpos, Nat.le_refl m⟩
  | some e =>
    dsimp only
    split
    · exact Nat.max_le.2 ⟨hpos, Nat.le_refl m⟩
    · dsimp only
      omega

/-! ### A smaller session ceiling -/

theorem gate_width_mono (cap : ConcurrencyCapability) {n k : ℕ} (h : n ≤ k) :
    gate_width cap (some n) ≤ gate_width cap (some k) := by
  rw [gate_width_eq, gate_width_eq]
  split
  · cases cap.max_concurrent with
    | some m => exact Nat.le_refl m
    | none =>
      dsimp only [Option.getD_none]
      omega
  · exact Nat.le_refl 1

theorem infer_mono (cap : ConcurrencyCapability) (env_infer : Option ℕ) {n k : ℕ} (h : n ≤ k) :
    (infer_concurrency cap (some n) env_infer).1 ≤ (infer_concurrency cap (some k) env_infer).1 := by
  rw [infer_concurrency_eq, infer_concurrency_eq]
  have hw := gate_width_mono cap h
  cases env_infer with
  | none => exact hw
  | some e =>
    dsimp only [Option.elim_some]
    omega

/-- The backlog shrinks with the session ceiling, although the gate may get narrower. -/
theorem backlog_mono (cap : ConcurrencyCapability) (env_infer : Option ℕ) {n k : ℕ} (h : n ≤ k) :
    n - (infer_concurrency cap (some n) env_infer).1 ≤
      k - (infer_concurrency cap (some k) env_infer).1 := by
  rw [infer_concurrency_eq, infer_concurrency_eq, gate_width_eq, gate_width_eq]
  cases cap.supports_parallel <;> cases cap.max_concurrent <;> cases env_infer <;>
    simp only [if_true, if_false, Bool.false_eq_true, Option.getD_none, Option.getD_some,
      Option.elim_none, Option.elim_some] <;> omega

/-! ### The promises -/

/-- What holds of a result: nothing is above what the backends declare. -/
structure OnlyDowngrades (s : Setup) (diar_cap : Option ConcurrencyCapability) (o : Overrides)
    (r : ResolvedCapability) : Prop where
  session : ∀ c, (s.ceiling diar_cap).1 = some c → ∃ n, r.session_ceiling = some n ∧ n ≤ c
  serial : s.asr_cap.supports_parallel = false → r.asr_infer_concurrency = 1
  width : ∀ m, s.asr_cap.max_concurrent = some m → r.asr_infer_concurrency ≤ m
  workers : 1 ≤ r.executor_max_workers ∧ (s.tts_declared = true →
    ∀ m, s.tts_cap.max_concurrent = some m → r.executor_max_workers ≤ m)
  mode : r.coordinator_mode = "concurrent" → (parallel_ok s.asr_cap ∧ parallel_ok s.tts_cap) ∨
    (s.cross_modal_overlap ∧ s.has_asr_backend ∧ s.has_tts_backend)
  burst : o.env_depth = none → ∀ n, r.session_ceiling = some n →
    ∃ depth, r.asr_queue_depth = some depth ∧ n ≤ r.asr_infer_concurrency + depth

/-- No number of `r'` is above that of `r`, and the mode is the same. -/
structure NotRaised (r r' : ResolvedCapability) : Prop where
  session : ∀ n, r.session_ceiling = some n → ∃ n', r'.session_ceiling = some n' ∧ n' ≤ n
  infer : r'.asr_infer_concurrency ≤ r.asr_infer_concurrency
  workers : r'.executor_max_workers ≤ r.executor_max_workers
  depth : ∀ n, r.asr_queue_depth = some n → ∃ n', r'.asr_queue_depth = some n' ∧ n' ≤ n
  mode : r'.coordinator_mode = r.coordinator_mode

/-- Diarization meets a ceiling that is there without it, or is not above the default of the target:
    a number of sessions is asked for, or a backend has a cap, or its own cap is small enough. -/
def DiarizationTightens (s : Setup) (d : ConcurrencyCapability) (o : Overrides) : Prop :=
  o.env_session.isSome ∨ o.profile_session.isSome ∨ (s.ceiling none).1.isSome ∨
    ∀ k, d.max_concurrent = some k → k ≤ target_default s.infer_target

theorem parse_positive {label : String} {v : Json} {x : Option ℕ}
    (h : parse_positive_int label v = .ok x) : ∀ n, x = some n → 0 < n := by
  rintro n rfl
  unfold parse_positive_int at h
  split at h
  · cases h
  · cases h
  · split at h
    · cases h
    · obtain rfl := Option.some.inj (Except.ok.inj h)
      omega

/-- The width that is asked for is positive. -/
theorem overrides_infer_pos {s : Setup} {o : Overrides} (h : s.overrides = .ok o) :
    ∀ n, o.env_infer = some n → 0 < n := by
  unfold Setup.overrides at h
  simp only [bind, Except.bind, pure, Except.pure] at h
  split at h
  · cases h
  split at h
  · cases h
  split at h
  · cases h
  rename_i hinfer
  split at h
  · cases h
  obtain rfl := Except.ok.inj h
  exact parse_positive hinfer

/-- The mode is concurrent where both backends may run in parallel, or overlap was declared. -/
theorem coordinator_mode_concurrent {s : Setup} (h : s.coordinator_mode = "concurrent") :
    (parallel_ok s.asr_cap ∧ parallel_ok s.tts_cap) ∨
      (s.cross_modal_overlap ∧ s.has_asr_backend ∧ s.has_tts_backend) := by
  unfold Setup.coordinator_mode at h
  split at h
  · simp at h
  split at h
  · simp at h
  rename_i hmode
  by_cases hdecl : s.has_declared_backends = true
  · simp only [h, hdecl, decide_true, Bool.true_and, Bool.not_eq_true', Bool.not_eq_false,
      Bool.or_eq_true, Bool.and_eq_true] at hmode
    tauto
  · -- without a backend both descriptors are the neutral one
    obtain ⟨hasr, htts⟩ : s.has_asr_backend = false ∧ s.has_tts_backend = false := by
      simpa [Setup.has_declared_backends] using hdecl
    left
    simp [Setup.asr_cap, Setup.tts_cap, hasr, htts, parallel_ok, inactive_cap]

theorem session_le_ceiling (s : Setup) (ceiling : Option ℕ × String) (e p : Option ℕ) :
    ∀ c, ceiling.1 = some c → ∃ n, (s.session ceiling e p).1 = some n ∧ n ≤ c := by
  intro c hc
  refine ⟨_, session_eq s ceiling e p, ?_⟩
  rw [hc]
  cases e.or p with
  | none => exact Nat.le_refl c
  | some n => exact Nat.min_le_right n c

/-- Whatever the settings and the descriptors are, the result only downgrades. -/
theorem resolved_only_downgrades {s : Setup} {o : Overrides} (ho : s.overrides = .ok o)
    (diar_cap : Option ConcurrencyCapability) :
    OnlyDowngrades s diar_cap o (s.resolved diar_cap o) where
  session := session_le_ceiling s _ _ _
  serial h := by
    dsimp only [Setup.resolved]
    exact infer_serial h _ (overrides_infer_pos ho)
  width m hm := by
    dsimp only [Setup.resolved]
    rw [session_eq]
    exact Nat.le_trans (infer_le_gate_width _ _ _) (gate_width_le hm _)
  workers := by
    dsimp only [Setup.resolved, Setup.executor]
    refine ⟨executor_pos _ _ _, fun hd m hm => ?_⟩
    rw [if_pos hd]
    exact executor_le hm _ _
  mode := coordinator_mode_concurrent
  burst hdepth n hn := by
    dsimp only [Setup.resolved] at hn ⊢
    rw [hdepth, hn]
    refine ⟨_, rfl, ?_⟩
    dsimp only
    omega

/-- The session ceiling decides: if it does not rise, nothing does. -/
theorem not_raised_iff (s : Setup) (d : ConcurrencyCapability) (o : Overrides) :
    NotRaised (s.resolved none o) (s.resolved (some d) o) ↔
      session_number (s.ceiling (some d)).1 (o.env_session.or o.profile_session)
          (target_default s.infer_target) ≤
        session_number (s.ceiling none).1 (o.env_session.or o.profile_session)
          (target_default s.infer_target) := by
  have hwith := session_eq s (s.ceiling (some d)) o.env_session o.profile_session
  have hwithout := session_eq s (s.ceiling none) o.env_session o.profile_session
  constructor
  · intro h
    obtain ⟨n', hn', hle⟩ := h.session _ hwithout
    obtain rfl := Option.some.inj (hwith.symm.trans hn')
    exact hle
  · intro hle
    refine ⟨fun n hn => ⟨_, hwith, ?_⟩, ?_, Nat.le_refl _, fun n hn => ?_, rfl⟩
    · obtain rfl := Option.some.inj (hwithout.symm.trans hn)
      exact hle
    · dsimp only [Setup.resolved]
      rw [hwith, hwithout]
      exact infer_mono _ _ hle
    · dsimp only [Setup.resolved] at hn ⊢
      rw [hwithout] at hn
      rw [hwith]
      cases hd : o.env_depth with
      | some k =>
        rw [hd] at hn
        exact ⟨n, hn, Nat.le_refl n⟩
      | none =>
        rw [hd] at hn
        obtain rfl := Option.some.inj hn
        exact ⟨_, rfl, backlog_mono _ _ hle⟩

/-- One more ceiling raises the session ceiling in one case alone: nothing was asked for, there was
    no ceiling, and the new one is above the default. -/
theorem session_number_meet_le (ceiling asked cap : Option ℕ) (default : ℕ) :
    session_number (meet ceiling cap) asked default ≤ session_number ceiling asked default ↔
      asked.isSome ∨ ceiling.isSome ∨ ∀ k, cap = some k → k ≤ default := by
  cases asked <;> cases ceiling <;> cases cap <;> simp [session_number, meet] <;> omega

/-- Where no backend is declared the ceiling is the default of the target. -/
theorem ceiling_isSome_of_undeclared {s : Setup} (h : s.has_declared_backends = false) :
    (s.ceiling none).1.isSome = true := by
  obtain ⟨hasr, -⟩ : s.has_asr_backend = false ∧ s.has_tts_backend = false := by
    simpa [Setup.has_declared_backends] using h
  simp [Setup.ceiling, hasr, h]

/-- For every profile, policy, environment and pair of descriptors with valid settings, with and
    without diarization: both results exist, both only downgrade, and diarization raises none of the
    numbers if and only if it meets a ceiling that is there without it or is not above the default
    of the target. -/
theorem only_downgrades_iff (s : Setup) (d : ConcurrencyCapability) {o : Overrides}
    (ho : s.overrides = .ok o) :
    ∃ r r', resolve s none = .ok r ∧ resolve s (some d) = .ok r' ∧
      (OnlyDowngrades s none o r ∧ OnlyDowngrades s (some d) o r' ∧ NotRaised r r' ↔
        DiarizationTightens s d o) := by
  refine ⟨s.resolved none o, s.resolved (some d) o, by rw [resolve, ho]; rfl,
    by rw [resolve, ho]; rfl, ?_⟩
  have hraised : NotRaised (s.resolved none o) (s.resolved (some d) o) ↔
      DiarizationTightens s d o := by
    rw [not_raised_iff, ceiling_diar]
    have hasked : (o.env_session.or o.profile_session).isSome ↔
        o.env_session.isSome ∨ o.profile_session.isSome := by
      cases o.env_session <;> cases o.profile_session <;> simp
    by_cases hdecl : s.has_declared_backends = true
    · rw [if_pos hdecl, session_number_meet_le, hasked, or_assoc]
      exact Iff.rfl
    · rw [if_neg hdecl]
      exact iff_of_true (Nat.le_refl _)
        (Or.inr (Or.inr (Or.inl (ceiling_isSome_of_undeclared (by simpa using hdecl)))))
  rw [← hraised]
  exact ⟨fun h => h.2.2,
    fun h => ⟨resolved_only_downgrades ho none, resolved_only_downgrades ho (some d), h⟩⟩

/-! ### An ASR-only profile without a cap -/

/-- A profile with an ASR backend that declares no cap, on an unknown target and without overrides. -/
def asr_only : Setup where
  profile := ⟨.str "node-1", none, .str "paraformer_trt", .null, none, .null⟩
  policy := none
  env_map _ := none
  environ _ := none
  tts_backend_name := ""
  asr_found := { unknown_cap with supports_parallel := true }
  tts_found := unknown_cap
  tts_registry _ := false

/-- Diarization with the measured limit of three streams. -/
def three_streams : ConcurrencyCapability := ⟨true, some 3, by simp⟩

theorem only_downgrades_iff_asr_only :
    ∃ r r', resolve asr_only none = .ok r ∧ resolve asr_only (some three_streams) = .ok r' ∧
      (OnlyDowngrades asr_only none ⟨none, none, none, none⟩ r ∧
        OnlyDowngrades asr_only (some three_streams) ⟨none, none, none, none⟩ r' ∧ NotRaised r r' ↔
          DiarizationTightens asr_only three_streams ⟨none, none, none, none⟩) :=
  only_downgrades_iff asr_only three_streams rfl

/-- Enabling diarization raises the session ceiling from 1 to 3, and with it the width of the gate. -/
theorem diarization_raises : ¬ ∀ (s : Setup) (d : ConcurrencyCapability) (r r' : ResolvedCapability),
    resolve s none = .ok r → resolve s (some d) = .ok r' → NotRaised r r' := by
  intro hall
  have hraised := hall asr_only three_streams _ _ rfl rfl
  exact absurd hraised.infer (by decide)

end LocalVoice.CapabilityResolver
