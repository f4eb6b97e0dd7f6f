import LocalVoice.ProfileLoader.Spec

/-! What a kind-scoped `apply_profile` touches. Its own steps stay inside the kind: the merged keys,
    the keys handed back, the stale keys and the bookkeeping are all filtered by `_in_scope`. The
    engine injection is not: `build_report` also takes the shared entries, so a variable of neither
    modality is written and recorded (`shared_engine_outside`). The frame holds exactly when that
    injection has nothing to change (`kind_frame_iff`). -/

namespace LocalVoice.ProfileLoader
open LocalVoice.Lib

section
variable {S : Env}

/-- Everything outside the kind is as it was: the variables and both key records. -/
structure FrameOutside (kd : Kind) (s t : LoaderState S) : Prop where
  environ : ∀ k, key_kind k ≠ some kd → t.environ k = s.environ k
  applied : ∀ k, key_kind k ≠ some kd → (k ∈ t.applied ↔ k ∈ s.applied)
  owned : ∀ k, key_kind k ≠ some kd → (k ∈ t.owned_overrides ↔ k ∈ s.owned_overrides)

theorem FrameOutside.refl (kd : Kind) (s : LoaderState S) : FrameOutside kd s s :=
  ⟨fun _ _ => rfl, fun _ _ => Iff.rfl, fun _ _ => Iff.rfl⟩

/-- The shared engine variables that the call resolves already hold their path, and are recorded if
    the resolution succeeds as a whole and they are not the operator's. -/
def SharedEnginesInPlace (disk : Disk) (f : ProfileFile) (kd : Kind) (s : LoaderState S) : Prop :=
  ∀ k v, key_kind k = none → exported disk (some kd) f.profile k = some v →
    s.environ k = some v ∧
      (k ∈ s.applied ∨ (S k).isSome ∨ engine_fails disk (some kd) f.profile = true)

theorem not_in_scope {kd : Kind} {k : String} (h : key_kind k ≠ some kd) :
    in_scope (some kd) k = false := by
  rw [← Bool.not_eq_true, in_scope_some]; exact h

theorem mem_merged_in_scope {environ : Env} {f : ProfileFile} {c : Call} {k : String}
    (h : k ∈ (merged_env environ f c).keys) : in_scope c.kind k = true := by
  obtain ⟨v, hv⟩ := Dict.mem_keys.1 h
  rw [merged_env, Dict.get?_filterKeys] at hv
  split at hv
  · assumption
  · cases hv

variable {disk : Disk} {f : ProfileFile} {c : Call} {kd : Kind} {s : LoaderState S} {k : String}

theorem merged_get?_outside (hk : key_kind k ≠ some kd) (environ : Env) :
    (merged_env environ f { c with kind := some kd }).get? k = none := by
  rw [merged_env, Dict.get?_filterKeys, if_neg (by simpa using hk)]

theorem not_mem_merged_outside (hk : key_kind k ≠ some kd) (environ : Env) :
    k ∉ (merged_env environ f { c with kind := some kd }).keys :=
  Dict.get?_eq_none.1 (merged_get?_outside hk environ)

/-- Steps 0 to 2 leave a variable outside the kind alone. -/
theorem base_value_outside (hk : key_kind k ≠ some kd) :
    base_value f { c with kind := some kd } s k = s.environ k := by
  have hr : k ∉ relinquished f.profile.profile_owned_env (some kd) s := fun hr => by
    simpa [not_in_scope hk] using (mem_relinquished.1 hr).2.2
  simp [base_value, hr, merged_get?_outside hk, not_in_scope hk]

/-- A call that stops at a conflict stays inside its kind. -/
theorem written_outside {pre : List (String × String)} {v : String}
    (h : StopsAt f { c with kind := some kd } s pre k v) :
    FrameOutside kd s (written f.profile.profile_owned_env pre
      (prepared f.profile.profile_owned_env (some kd)
        (merged_env s.environ f { c with kind := some kd }).keys s)) := by
  obtain ⟨post, hsplit⟩ := h.split
  have hpre : ∀ j, key_kind j ≠ some kd → j ∉ pre.map Prod.fst := fun j hj hmem => by
    refine not_mem_merged_outside (f := f) (c := c) hj s.environ ?_
    rw [Dict.keys, hsplit, List.map_append]
    exact List.mem_append_left _ hmem
  have hnodup : (pre.map Prod.fst).Nodup := by
    have := (merged_env s.environ f { c with kind := some kd }).nodup
    rw [hsplit, List.map_append] at this
    exact (List.nodup_append.1 this).1
  have hrel : ∀ j, key_kind j ≠ some kd → j ∉ relinquished f.profile.profile_owned_env (some kd) s :=
    fun j hj hr => by simpa [not_in_scope hj] using (mem_relinquished.1 hr).2.2
  refine ⟨fun j hj => ?_, fun j _ => by rw [written_applied, prepared_applied], fun j hj => ?_⟩
  · cases he : eff_operator S f.profile.profile_owned_env j with
    | true => rw [written_environ_eff he, prepared_environ_eff he, if_neg (hrel j hj)]
    | false =>
      have hnone : pre.lookup j = none :=
        Option.not_isSome_iff_eq_none.1 fun hs => hpre j hj ((Dict.lookup_isSome j pre).1 hs)
      rw [written_environ_not_eff he _ _ hnodup, hnone, prepared_environ_not_eff he]
      simp [clears, not_in_scope hj]
  · rw [mem_written_owned, prepared_owned, Finset.mem_sdiff]
    simp [hrel j hj, hpre j hj]

theorem mem_injected_keys :
    k ∈ injected_keys S disk f { c with kind := some kd } ↔
      c.resolve_engines = true ∧ engine_fails disk (some kd) f.profile = false ∧
        (exported disk (some kd) f.profile k).isSome ∧ S k = none := by
  rw [exported_isSome, injected_keys]
  dsimp only
  cases c.resolve_engines <;> cases engine_fails disk (some kd) f.profile <;>
    simp only [Bool.and_true, Bool.and_false, Bool.not_true, Bool.not_false, Bool.false_eq_true,
      if_true, if_false, List.not_mem_nil, List.mem_filter, Option.isNone_iff_eq_none, true_and,
      false_and, reduceCtorEq]

/-- A finished call keeps the frame exactly when its shared engines were in place. -/
theorem finished_frame_iff : FrameOutside kd s (finished disk f { c with kind := some kd } s) ↔
    (c.resolve_engines = true → SharedEnginesInPlace disk f kd s) := by
  have henv : ∀ k, key_kind k ≠ some kd →
      (finished disk f { c with kind := some kd } s).environ k =
        (if c.resolve_engines then exported disk (some kd) f.profile k else none).or
          (s.environ k) := fun k hk => by
    rw [finished_environ, base_value_outside hk]; rfl
  have happ : ∀ k, key_kind k ≠ some kd →
      (k ∈ (finished disk f { c with kind := some kd } s).applied ↔ k ∈ s.applied ∨
        k ∈ injected_keys S disk f { c with kind := some kd }) := fun k hk => by
    rw [mem_finished_applied]
    simp [not_in_scope hk, not_mem_merged_outside hk]
  constructor
  · intro hfr hres k v hk hv
    have hne : key_kind k ≠ some kd := by simp [hk]
    have h1 := hfr.environ k hne
    rw [henv k hne, hres, if_pos rfl, hv, Option.some_or] at h1
    refine ⟨h1.symm, ?_⟩
    by_cases hS : (S k).isSome
    · exact Or.inr (Or.inl hS)
    cases hfail : engine_fails disk (some kd) f.profile with
    | true => exact Or.inr (Or.inr rfl)
    | false =>
      refine Or.inl ((hfr.applied k hne).1 ((happ k hne).2 (Or.inr ?_)))
      rw [mem_injected_keys]
      exact ⟨hres, hfail, by simp [hv], by simpa using hS⟩
  · intro h
    refine ⟨fun k hk => ?_, fun k hk => ?_, fun k hk => ?_⟩
    · rw [henv k hk]
      cases hres : c.resolve_engines with
      | false => simp
      | true =>
        cases hv : exported disk (some kd) f.profile k with
        | none => simp
        | some v =>
          have hnone : key_kind k = none := (exported_kind hv).resolve_right hk
          simp [(h hres k v hnone hv).1]
    · rw [happ k hk, mem_injected_keys]
      refine ⟨fun hor => hor.elim id ?_, Or.inl⟩
      rintro ⟨hres, hfail, hsome, hS⟩
      obtain ⟨v, hv⟩ := Option.isSome_iff_exists.1 hsome
      have hnone : key_kind k = none := (exported_kind hv).resolve_right hk
      rcases (h hres k v hnone hv).2 with ha | ha | ha
      · exact ha
      · simp [hS] at ha
      · simp [hfail] at ha
    · rw [mem_finished_owned]
      simp [not_in_scope hk, not_mem_merged_outside hk]

/-- A kind-scoped call leaves everything outside its kind alone if and only if it does not get to
    the engine injection, or finds the shared engine variables as the injection would set them. -/
theorem kind_frame_iff (disk : Disk) (c : Call) (kd : Kind) (s : LoaderState S) :
    FrameOutside kd s (apply_profile disk { c with kind := some kd } s).1 ↔
      (c.resolve_engines = true →
        ∀ f, loaded disk c s.environ = some f → NoConflict f { c with kind := some kd } s →
          SharedEnginesInPlace disk f kd s) := by
  have hload : loaded disk { c with kind := some kd } s.environ = loaded disk c s.environ := rfl
  cases hf : loaded disk c s.environ with
  | none =>
    rw [apply_profile_not_loaded (hload.trans hf)]
    exact ⟨fun _ _ _ h => (Option.some_ne_none _ h.symm).elim, fun _ => FrameOutside.refl kd s⟩
  | some f =>
    rw [apply_profile_loaded (hload.trans hf)]
    rcases reconcile_cases disk f { c with kind := some kd } s with ⟨hn, hr⟩ | ⟨pre, k, v, hst, e, hr⟩
    · rw [hr, finished_frame_iff]
      constructor
      · rintro h hres _ ⟨⟩ -
        exact h hres
      · exact fun h hres => h hres f rfl hn
    · rw [hr]
      refine ⟨?_, fun _ => written_outside hst⟩
      rintro - - _ ⟨⟩ hn
      obtain ⟨post, hsplit⟩ := hst.split
      exact absurd hst.conflict (hn (k, v) (by simp [hsplit]))

end

/-- A bundle whose shared engine every modality needs. -/
def bundle : ProfileFile :=
  ⟨"bundle", ⟨none, .empty, none, none, [⟨"qwen3", "LM_ENGINE", "/opt/lm.engine", none, true⟩], []⟩⟩

def bundle_disk : Disk := ⟨fun _ => some bundle, fun _ => none, fun _ => true⟩

/-- An ASR reload of the bundle sets `LM_ENGINE`, a variable of neither modality. -/
theorem shared_engine_outside :
    ¬ FrameOutside .asr (LoaderState.fresh fun _ => none)
      (apply_profile bundle_disk ⟨some "bundle", [], true, some .asr⟩
        (LoaderState.fresh fun _ => none)).1 := by
  intro h
  have hk := h.environ "LM_ENGINE" (by decide)
  revert hk
  decide

end LocalVoice.ProfileLoader
