import LocalVoice.Lib.Run
import LocalVoice.ProfileLoader.Spec

/-! Operator-owned keys over whole runs of `apply_profile`. The invariant: a key of the import-time
    snapshot has its snapshot value or is recorded in `_OWNED_OVERRIDES` (`Kept`). The steps of the
    loader itself keep it; two things do not. The engine injection writes `os.environ` with no look
    at the operator keys, and a key that a raising call handed back is still in `_APPLIED_KEYS`, so
    a later profile that owns it without setting it clears it. -/

namespace LocalVoice.ProfileLoader
open LocalVoice.Lib

section
variable {S : Env}

/-- The operator keys are all in force or recorded as overridden. -/
def Kept (s : LoaderState S) : Prop :=
  ∀ k v, S k = some v → s.environ k = some v ∨ k ∈ s.owned_overrides

/-- After the call `k` is recorded as overridden: it was and stays so, or the profile owns and sets
    it. -/
def Recorded (f : ProfileFile) (c : Call) (s : LoaderState S) (k : String) : Prop :=
  (k ∈ s.owned_overrides ∧ (k ∈ f.profile.profile_owned_env ∨ in_scope c.kind k = false)) ∨
  (k ∈ (merged_env s.environ f c).keys ∧ k ∈ f.profile.profile_owned_env)

/-- The condition on a call: it clears no operator key that is not recorded as overridden, and the
    paths it injects into operator keys are the operator's own or go to recorded keys. -/
structure RespectsOperator (disk : Disk) (c : Call) (s : LoaderState S) : Prop where
  no_orphan_clear : ∀ f, loaded disk c s.environ = some f → ∀ k, (S k).isSome →
    clears f.profile.profile_owned_env c.kind (merged_env s.environ f c).keys s k = true →
    k ∈ s.owned_overrides
  no_engine_clash : c.resolve_engines = true → ∀ f, loaded disk c s.environ = some f →
    NoConflict f c s → ∀ k v w, S k = some v → exported disk c.kind f.profile k = some w →
    w = v ∨ Recorded f c s k

variable {disk : Disk} {f : ProfileFile} {c : Call} {s : LoaderState S}

theorem mem_finished_owned_of_recorded {k : String} (hS : (S k).isSome) (h : Recorded f c s k) :
    k ∈ (finished disk f c s).owned_overrides :=
  mem_finished_owned.2 (h.imp id fun h => ⟨h.1, hS, h.2⟩)

/-- An operator key the profile does not own keeps or gets back its value in steps 0 to 2, unless it
    is overridden outside the scope of the call. -/
theorem operator_view_kept (hs : Kept s) {k v : String} (hv : S k = some v)
    (hown : k ∉ f.profile.profile_owned_env) :
    operator_view f.profile.profile_owned_env c.kind s k = some v ∨
      (k ∈ s.owned_overrides ∧ in_scope c.kind k = false) := by
  unfold operator_view
  by_cases hr : k ∈ relinquished f.profile.profile_owned_env c.kind s
  · rw [if_pos hr]; exact Or.inl hv
  · rw [if_neg hr]
    rcases hs k v hv with h | h
    · exact Or.inl h
    · refine Or.inr ⟨h, ?_⟩
      rw [← Bool.not_eq_true]
      exact fun hsc => hr (mem_relinquished.2 ⟨h, hown, hsc⟩)

theorem finished_kept (hs : Kept s) (hload : loaded disk c s.environ = some f)
    (hn : NoConflict f c s) (hc : RespectsOperator disk c s) : Kept (finished disk f c s) := by
  intro k v hv
  have hS : (S k).isSome := by simp [hv]
  rw [finished_environ]
  cases he : engine_value disk f c k with
  | some w =>
    unfold engine_value at he
    split at he
    · rename_i hres
      rcases hc.no_engine_clash hres f hload hn k v w hv he with rfl | hrec
      · exact Or.inl rfl
      · exact Or.inr (mem_finished_owned_of_recorded hS hrec)
    · cases he
  | none =>
    rw [Option.none_or]
    by_cases hown : k ∈ f.profile.profile_owned_env
    · have heff : eff_operator S f.profile.profile_owned_env k = false :=
        eff_operator_eq_false.2 fun _ => hown
      have hkeep : k ∈ s.owned_overrides → k ∈ (finished disk f c s).owned_overrides := fun h =>
        mem_finished_owned_of_recorded hS (Or.inl ⟨h, Or.inl hown⟩)
      cases hm : (merged_env s.environ f c).get? k with
      | some w =>
        exact Or.inr (mem_finished_owned_of_recorded hS (Or.inr ⟨Dict.mem_keys.2 ⟨w, hm⟩, hown⟩))
      | none =>
        by_cases hcl : k ∈ s.applied ∧ in_scope c.kind k = true
        · exact Or.inr (hkeep (hc.no_orphan_clear f hload k hS
            (clears_eq_true.2 ⟨hcl.1, Dict.get?_eq_none.1 hm, heff, hcl.2⟩)))
        · have hb : base_value f c s k = s.environ k := by simp [base_value, heff, hm, hcl]
          rw [hb]
          exact (hs k v hv).imp id hkeep
    · have hb : base_value f c s k = operator_view f.profile.profile_owned_env c.kind s k :=
        if_pos (eff_operator_eq_true.2 ⟨hS, hown⟩)
      rw [hb]
      exact (operator_view_kept hs hv hown).imp id fun h =>
        mem_finished_owned_of_recorded hS (Or.inl ⟨h.1, Or.inr h.2⟩)

theorem stopped_kept (hs : Kept s) (hload : loaded disk c s.environ = some f)
    (hc : RespectsOperator disk c s) {pre : List (String × String)}
    (hnodup : (pre.map Prod.fst).Nodup) :
    Kept (written f.profile.profile_owned_env pre (prepared f.profile.profile_owned_env c.kind
      (merged_env s.environ f c).keys s)) := by
  intro k v hv
  have hS : (S k).isSome := by simp [hv]
  have hkeep : k ∈ s.owned_overrides → k ∉ relinquished f.profile.profile_owned_env c.kind s →
      k ∈ (written f.profile.profile_owned_env pre (prepared f.profile.profile_owned_env c.kind
        (merged_env s.environ f c).keys s)).owned_overrides := fun h hr =>
    (mem_written_owned _ _).2 (Or.inl (by rw [prepared_owned]; exact Finset.mem_sdiff.2 ⟨h, hr⟩))
  by_cases hown : k ∈ f.profile.profile_owned_env
  · have heff : eff_operator S f.profile.profile_owned_env k = false :=
      eff_operator_eq_false.2 fun _ => hown
    have hr : k ∉ relinquished f.profile.profile_owned_env c.kind s := fun hr =>
      (mem_relinquished.1 hr).2.1 hown
    rw [written_environ_not_eff heff _ _ hnodup, prepared_environ_not_eff heff]
    cases hl : pre.lookup k with
    | some w =>
      refine Or.inr ((mem_written_owned _ _).2 (Or.inr ⟨?_, hS, hown⟩))
      exact (Dict.lookup_isSome k pre).1 (by simp [hl])
    | none =>
      rw [Option.none_or]
      split
      · rename_i hcl
        exact Or.inr (hkeep (hc.no_orphan_clear f hload k hS hcl) hr)
      · exact (hs k v hv).imp id fun h => hkeep h hr
  · have heff : eff_operator S f.profile.profile_owned_env k = true :=
      eff_operator_eq_true.2 ⟨hS, hown⟩
    rw [written_environ_eff heff, prepared_environ_eff heff]
    refine (operator_view_kept (c := c) hs hv hown).imp id fun h => hkeep h.1 fun hr => ?_
    simp [(mem_relinquished.1 hr).2.2] at h

/-- One call that meets the condition keeps the invariant, whether it returns or raises. -/
theorem apply_kept (hs : Kept s) (hc : RespectsOperator disk c s) :
    Kept (apply_profile disk c s).1 := by
  cases hf : loaded disk c s.environ with
  | none => rw [apply_profile_not_loaded hf]; exact hs
  | some f =>
    rw [apply_profile_loaded hf]
    rcases reconcile_cases disk f c s with ⟨hn, hr⟩ | ⟨pre, k, v, hst, e, hr⟩
    · rw [hr]; exact finished_kept hs hf hn hc
    · rw [hr]
      obtain ⟨post, hsplit⟩ := hst.split
      have hnodup := (merged_env s.environ f c).nodup
      rw [hsplit, List.map_append] at hnodup
      exact stopped_kept hs hf hc (List.nodup_append.1 hnodup).1

/-- A full application gives every operator key the profile does not own its value back. -/
theorem full_apply_restores (hs : Kept s) (hc : RespectsOperator disk c s)
    (hload : loaded disk c s.environ = some f) (hkind : c.kind = none)
    (hret : (apply_profile disk c s).2.raises = false) {k v : String} (hv : S k = some v)
    (hown : k ∉ f.profile.profile_owned_env) :
    (apply_profile disk c s).1.environ k = some v := by
  rw [apply_profile_loaded hload] at hret ⊢
  have hn := noConflict_of_returned hret
  have hsc : in_scope c.kind k = true := by rw [hkind]; rfl
  rw [reconcile_of_noConflict disk hn, finished_environ]
  cases he : engine_value disk f c k with
  | some w =>
    unfold engine_value at he
    split at he
    · rename_i hres
      rcases hc.no_engine_clash hres f hload hn k v w hv he with rfl | hrec | hrec
      · rfl
      · simp [hown, hsc] at hrec
      · exact absurd hrec.2 hown
    · cases he
  | none =>
    have hb : base_value f c s k = operator_view f.profile.profile_owned_env c.kind s k :=
      if_pos (eff_operator_eq_true.2 ⟨by simp [hv], hown⟩)
    rw [Option.none_or, hb]
    exact (operator_view_kept (c := c) hs hv hown).resolve_right fun h => by simp [hsc] at h

/-- `apply_profile` as a step: the label is what the call finds on disk and its arguments. -/
def apply_step (s : LoaderState S) (a : Disk × Call) (t : LoaderState S) : Prop :=
  t = (apply_profile a.1 a.2 s).1

end

theorem fresh_kept (environ : Env) : Kept (LoaderState.fresh environ) := fun _ _ h =>
  Or.inl (snapshot_le h)

/-- In every run whose calls meet the condition, every operator key has its snapshot value or is
    recorded as overridden, and every full application ends with the snapshot value in each operator
    key that its profile does not own. -/
theorem operator_keys_kept (environ : Env) {calls : List (Disk × Call)}
    {s : LoaderState (snapshot_operator_env environ)}
    (hrun : Run (restrict (fun s a => RespectsOperator a.1 a.2 s) apply_step)
      (LoaderState.fresh environ) calls s) :
    Kept s ∧ ∀ disk c f, RespectsOperator disk c s → loaded disk c s.environ = some f →
      c.kind = none → (apply_profile disk c s).2.raises = false →
      ∀ k v, snapshot_operator_env environ k = some v → k ∉ f.profile.profile_owned_env →
        (apply_profile disk c s).1.environ k = some v := by
  have hs : Kept s := hrun.invariant (I := Kept) (by
    rintro s a t hs ⟨hc, rfl⟩
    exact apply_kept hs hc) (fresh_kept environ)
  exact ⟨hs, fun disk c f hc hf hk hr k v hv hown => full_apply_restores hs hc hf hk hr hv hown⟩

/-- An operator that chose an own Matcha engine. -/
def matcha_environ : Env := fun k => if k = "MATCHA_ENGINE" then some "/custom/m.plan" else none

/-- A profile with one engine, exported through the variable `v`. -/
def engine_profile (v : String) : ProfileFile :=
  ⟨"p", ⟨none, .empty, none, none, [⟨"matcha", v, "/opt/m.plan", none, true⟩], []⟩⟩

def engine_disk (v : String) : Disk := ⟨fun _ => some (engine_profile v), fun _ => none, fun _ => true⟩

def engine_call : Call := ⟨some "p", [], true, none⟩

/-- A run of one call whose engine has a variable of its own. -/
theorem operator_keys_kept_own_variable :
    Kept (apply_profile (engine_disk "ENGINE_A") engine_call (.fresh matcha_environ)).1 := by
  refine (@operator_keys_kept matcha_environ [(engine_disk "ENGINE_A", engine_call)] _
    (Run.single ⟨⟨fun f _ k _ h => ?_, fun _ f hf _ k v w hv hw => ?_⟩, rfl⟩)).1
  · simp [clears, LoaderState.fresh] at h
  · obtain rfl : engine_profile "ENGINE_A" = f := Option.some.inj hf
    have hk : k = "ENGINE_A" := by
      have h := exported_isSome.1 (by simp [hw] :
        (exported (engine_disk "ENGINE_A") engine_call.kind (engine_profile "ENGINE_A").profile k).isSome)
      simpa [exports, report_entries, engine_profile, engine_disk, engine_call] using h
    have hnone : snapshot_operator_env matcha_environ "ENGINE_A" = none := by decide
    rw [hk, hnone] at hv
    cases hv

/-- The injection overwrites the operator's `MATCHA_ENGINE`, which no record mentions. -/
theorem engine_overwrites_operator :
    ∃ s, Run apply_step (.fresh matcha_environ) [(engine_disk "MATCHA_ENGINE", engine_call)] s ∧
      ¬ Kept s := by
  refine ⟨_, Run.single rfl, fun h => ?_⟩
  have hk := h "MATCHA_ENGINE" "/custom/m.plan" (by decide)
  revert hk
  decide

/-! Whether a full application forgets what was applied before it. The operator keys are put back
    and the recorded keys cleared, so the environment after a call differs from the one a fresh
    process gets only in two ways: a value refers to a variable that an earlier profile set (the
    values are expanded before the stale keys are cleared), or an earlier profile overwrote a
    variable of the start environment that this one does not set (clearing does not bring it back).
    `History` is the invariant that says so. -/

section
variable {environ : Env}

/-- What earlier calls can have changed: recorded keys only. Everything else is as at the start, and
    a recorded operator key is also recorded as overridden. -/
structure History (s : LoaderState (snapshot_operator_env environ)) : Prop where
  untouched : ∀ k, k ∉ s.applied → k ∉ s.owned_overrides → s.environ k = environ k
  overridden : ∀ k ∈ s.applied, (snapshot_operator_env environ k).isSome → k ∈ s.owned_overrides

/-- The condition on a call: the variables its values refer to and do not define are as at the
    start, and every recorded key that it neither sets nor hands back was unset at the start. -/
structure ForgetsHistory (disk : Disk) (c : Call) (s : LoaderState (snapshot_operator_env environ)) :
    Prop where
  refs : ∀ f, loaded disk c s.environ = some f →
    ∀ x ∈ outer_refs f.profile.env (uses_value (snapshot_operator_env environ) f c),
      s.environ x = environ x
  left_out : ∀ f, loaded disk c s.environ = some f → ∀ k, k ∈ s.applied ∨ k ∈ s.owned_overrides →
    k ∉ (merged_env s.environ f c).keys →
    eff_operator (snapshot_operator_env environ) f.profile.profile_owned_env k = false →
    environ k = none

theorem fresh_history (environ : Env) : History (LoaderState.fresh environ) :=
  ⟨fun _ _ _ => rfl, fun _ h => by simp [LoaderState.fresh] at h⟩

variable {disk : Disk} {f : ProfileFile} {c : Call}
  {s : LoaderState (snapshot_operator_env environ)}

/-- The operator keys that the profile does not own are as at the start when the loop looks at
    them. -/
theorem operator_view_start (hs : History s) (hkind : c.kind = none) {k : String}
    (he : eff_operator (snapshot_operator_env environ) f.profile.profile_owned_env k = true) :
    operator_view f.profile.profile_owned_env c.kind s k = environ k := by
  obtain ⟨hS, hown⟩ := eff_operator_eq_true.1 he
  obtain ⟨v, hv⟩ := Option.isSome_iff_exists.1 hS
  unfold operator_view
  by_cases hr : k ∈ relinquished f.profile.profile_owned_env c.kind s
  · rw [if_pos hr, hv, snapshot_le hv]
  · have hno : k ∉ s.owned_overrides := fun h =>
      hr (mem_relinquished.2 ⟨h, hown, by rw [hkind]; rfl⟩)
    rw [if_neg hr]
    exact hs.untouched k (fun ha => hno (hs.overridden k ha hS)) hno

/-- Under the condition, steps 0 to 2 leave what they would leave in a fresh process. -/
theorem base_value_start (hs : History s) (hc : ForgetsHistory disk c s)
    (hload : loaded disk c s.environ = some f) (hkind : c.kind = none) (k : String) :
    base_value f c s k = base_value f c (LoaderState.fresh environ) k := by
  have hsc : in_scope c.kind k = true := by rw [hkind]; rfl
  cases he : eff_operator (snapshot_operator_env environ) f.profile.profile_owned_env k with
  | true =>
    have h1 := operator_view_start hs hkind he
    have h2 := operator_view_start (fresh_history environ) hkind he
    rw [base_value, base_value, if_pos he, if_pos he]
    exact h1.trans h2.symm
  | false =>
    have hk : ∀ t : LoaderState (snapshot_operator_env environ), base_value f c t k =
        ((merged_env t.environ f c).get? k).or (if k ∈ t.applied then none else t.environ k) :=
      fun t => by simp [base_value, he, hsc]
    rw [hk, hk, merged_get?_congr (d := (LoaderState.fresh environ).environ) (Or.inl he)
      (hc.refs f hload)]
    cases hg : (merged_env (LoaderState.fresh environ).environ f c).get? k with
    | some v => rfl
    | none =>
      have hnk : k ∉ (merged_env s.environ f c).keys := fun hm =>
        Dict.get?_eq_none.1 hg ((mem_merged_keys _ _ k).1 hm)
      simp only [Option.none_or, LoaderState.fresh, Finset.notMem_empty, if_false]
      by_cases ha : k ∈ s.applied
      · rw [if_pos ha, hc.left_out f hload k (Or.inl ha) hnk he]
      · rw [if_neg ha]
        by_cases ho : k ∈ s.owned_overrides
        · -- an overridden key was set at the start, so the condition excludes it here
          obtain ⟨v, hv⟩ := Option.isSome_iff_exists.1 (s.owned_sub k ho)
          have := hc.left_out f hload k (Or.inr ho) hnk he
          simp [snapshot_le hv] at this
        · exact hs.untouched k ha ho

theorem noConflict_start (hs : History s) (hc : ForgetsHistory disk c s)
    (hload : loaded disk c s.environ = some f) (hkind : c.kind = none) (hn : NoConflict f c s) :
    NoConflict f c (LoaderState.fresh environ) := by
  intro p hp hconf
  unfold Conflict conflicts at hconf
  cases he : eff_operator (snapshot_operator_env environ) f.profile.profile_owned_env p.1 with
  | false => simp [he] at hconf
  | true =>
    rw [he, operator_view_start (fresh_history environ) hkind he] at hconf
    have hcrit : p.1 ∈ critical_keys := by simp at hconf; exact hconf.2
    have hget := merged_get?_congr (d := (LoaderState.fresh environ).environ) (Or.inr hcrit)
      (hc.refs f hload)
    refine hn p (Dict.mem_items.2 (hget.trans (Dict.mem_items.1 hp))) ?_
    unfold Conflict conflicts
    rwa [he, operator_view_start hs hkind he]

theorem finished_environ_plain (hres : c.resolve_engines = false) (k : String) :
    (finished disk f c s).environ k = base_value f c s k := by
  rw [finished_environ]
  simp [engine_value, hres]

/-- A full application that meets the condition keeps the invariant. -/
theorem finished_history (hs : History s) (hc : ForgetsHistory disk c s)
    (hload : loaded disk c s.environ = some f) (hkind : c.kind = none)
    (hres : c.resolve_engines = false) : History (finished disk f c s) := by
  have hsc : ∀ k, in_scope c.kind k = true := fun k => by rw [hkind]; rfl
  have happ : ∀ k, k ∈ (finished disk f c s).applied ↔ k ∈ (merged_env s.environ f c).keys ∧
      eff_operator (snapshot_operator_env environ) f.profile.profile_owned_env k = false :=
    fun k => by rw [mem_finished_applied]; simp [hsc, injected_keys, hres]
  refine ⟨fun k ha ho => ?_, fun k ha hS => ?_⟩
  · rw [finished_environ_plain hres]
    cases he : eff_operator (snapshot_operator_env environ) f.profile.profile_owned_env k with
    | true => exact (if_pos he).trans (operator_view_start hs hkind he)
    | false =>
      have hnk : k ∉ (merged_env s.environ f c).keys := fun hk => ha ((happ k).2 ⟨hk, he⟩)
      have hb : base_value f c s k = if k ∈ s.applied then none else s.environ k := by
        simp [base_value, he, hsc, Dict.get?_eq_none.2 hnk]
      rw [hb]
      by_cases hsa : k ∈ s.applied
      · rw [if_pos hsa, hc.left_out f hload k (Or.inl hsa) hnk he]
      · rw [if_neg hsa]
        refine hs.untouched k hsa fun hso => ho (mem_finished_owned.2 (Or.inl ⟨hso, Or.inl ?_⟩))
        exact eff_operator_eq_false.1 he (s.owned_sub k hso)
  · obtain ⟨hk, he⟩ := (happ k).1 ha
    exact mem_finished_owned.2 (Or.inr ⟨hk, hS, eff_operator_eq_false.1 he hS⟩)

/-- A full application without engine resolution that returns. -/
def full_step (s : LoaderState (snapshot_operator_env environ)) (a : Disk × Call)
    (t : LoaderState (snapshot_operator_env environ)) : Prop :=
  a.2.kind = none ∧ a.2.resolve_engines = false ∧ (apply_profile a.1 a.2 s).2.raises = false ∧
    t = (apply_profile a.1 a.2 s).1

theorem full_step_history {a : Disk × Call} {t : LoaderState (snapshot_operator_env environ)}
    (hs : History s) (hc : ForgetsHistory a.1 a.2 s) (hst : full_step s a t) : History t := by
  obtain ⟨hkind, hres, hret, rfl⟩ := hst
  cases hf : loaded a.1 a.2 s.environ with
  | none => rw [apply_profile_not_loaded hf]; exact hs
  | some f =>
    rw [apply_profile_loaded hf] at hret ⊢
    rw [reconcile_of_noConflict a.1 (noConflict_of_returned hret)]
    exact finished_history hs hc hf hkind hres

end

/-- In every run of full applications that meet the condition, the last one, if it loads a profile,
    leaves the environment that this profile alone leaves in a fresh process, where it does not
    raise either. -/
theorem apply_forgets_history (environ : Env) {calls : List (Disk × Call)} {disk : Disk} {c : Call}
    {s t : LoaderState (snapshot_operator_env environ)}
    (hrun : Run (restrict (fun s a => ForgetsHistory a.1 a.2 s) full_step)
      (LoaderState.fresh environ) calls s)
    (hlast : restrict (fun s a => ForgetsHistory a.1 a.2 s) full_step s (disk, c) t)
    {f : ProfileFile} (hload : loaded disk c s.environ = some f) :
    t.environ = (reconcile disk f c (LoaderState.fresh environ)).1.environ ∧
      (reconcile disk f c (LoaderState.fresh environ)).2.raises = false := by
  have hs : History s := hrun.invariant (I := History) (fun hs h => full_step_history hs h.1 h.2)
    (fresh_history environ)
  obtain ⟨hc, hkind, hres, hret, rfl⟩ := hlast
  dsimp only at hc hkind hres hret
  have hn : NoConflict f c s := noConflict_of_returned (by rwa [apply_profile_loaded hload] at hret)
  rw [apply_profile_loaded hload, reconcile_of_noConflict disk hn,
    reconcile_of_noConflict disk (noConflict_start hs hc hload hkind hn)]
  refine ⟨funext fun k => ?_, rfl⟩
  rw [finished_environ_plain hres, finished_environ_plain hres]
  exact base_value_start hs hc hload hkind k

/-- A profile that sets one variable. -/
def one_variable (stem key value : String) : ProfileFile :=
  ⟨stem, ⟨none, .update .empty [(key, .str value)], none, none, [], []⟩⟩

def one_variable_disk (value : String) : Disk :=
  ⟨fun r => some (if r = "foo" then one_variable "foo" "FOO" "1" else one_variable "bar" "BAR" value),
    fun _ => none, fun _ => true⟩

def foo_call : Call := ⟨some "foo", [], false, none⟩
def bar_call : Call := ⟨some "bar", [], false, none⟩

/-- In an empty environment nothing that is recorded was set at the start. -/
theorem forgets_empty {disk : Disk} {c : Call} {s : LoaderState (snapshot_operator_env fun _ => none)}
    {f : ProfileFile} (hload : loaded disk c s.environ = some f)
    (href : outer_refs f.profile.env (uses_value (snapshot_operator_env fun _ => none) f c) = []) :
    ForgetsHistory disk c s := by
  refine ⟨fun g hg x hx => ?_, fun _ _ _ _ _ _ => rfl⟩
  obtain rfl : f = g := Option.some.inj (hload.symm.trans hg)
  rw [href] at hx
  cases hx

/-- A run of two profiles that refer to nothing. -/
theorem apply_forgets_history_plain :
    (apply_profile (one_variable_disk "2") bar_call (apply_profile (one_variable_disk "2") foo_call
      (.fresh fun _ => none)).1).1.environ =
    (reconcile (one_variable_disk "2") (one_variable "bar" "BAR" "2") bar_call
      (.fresh fun _ => none)).1.environ :=
  (@apply_forgets_history (fun _ => none) [(one_variable_disk "2", foo_call)] (one_variable_disk "2")
    bar_call _ _ (Run.single ⟨forgets_empty rfl (by decide), rfl, rfl, by decide, rfl⟩)
    ⟨forgets_empty rfl (by decide), rfl, rfl, by decide, rfl⟩ _ rfl).1

/-- `BAR=${FOO}` after a profile with `FOO=1` is `1`, and `${FOO}` in a fresh process. -/
theorem stale_value_expanded :
    ∃ s t : LoaderState (snapshot_operator_env fun _ => none),
      Run full_step (.fresh fun _ => none) [(one_variable_disk "${FOO}", foo_call)] s ∧
      full_step s (one_variable_disk "${FOO}", bar_call) t ∧
      t.environ ≠ (reconcile (one_variable_disk "${FOO}") (one_variable "bar" "BAR" "${FOO}") bar_call
        (.fresh fun _ => none)).1.environ := by
  refine ⟨_, _, .single ⟨rfl, rfl, by decide, rfl⟩, ⟨rfl, rfl, by decide, rfl⟩, fun h => ?_⟩
  have hbar := congrFun h "BAR"
  revert hbar
  decide

end LocalVoice.ProfileLoader
