import LocalVoice.ProfileLoader.Atomicity
import LocalVoice.ProfileLoader.Frame

/-! Going back to a profile after an attempt to apply another one, both for one kind and with engine
    resolution, as a rolled-back hot swap does. There is no snapshot: the old profile is applied
    again, over whatever the attempt has left. That gives back the state before the attempt when the
    old profile was in force there (`InForce`) and whatever the attempt set besides can be undone by
    applying the old one (`Undone`). -/

namespace LocalVoice.ProfileLoader
open LocalVoice.Lib

/-- `apply_profile(ref, resolve_engines=True, kind=kd)`. -/
def scoped_call (kd : Kind) (ref : String) : Call := ⟨some ref, [], true, some kd⟩

/-- What an attempt to apply a profile leaves behind: the values it sets, and whether it records a
    key in `_APPLIED_KEYS` or in `_OWNED_OVERRIDES`. -/
structure Attempt where
  value : Env
  records : String → Bool
  overrides : String → Bool

section
variable {S : Env}

/-- The merged items in front of the first CRITICAL conflict. -/
def reached (f : ProfileFile) (c : Call) (s : LoaderState S) : List (String × String) :=
  (merged_env s.environ f c).items.takeWhile fun p =>
    !conflicts S f.profile.profile_owned_env
      (operator_view f.profile.profile_owned_env c.kind s) p.1 p.2

/-- Whether there is no conflict among them. -/
def complete (f : ProfileFile) (c : Call) (s : LoaderState S) : Bool :=
  (merged_env s.environ f c).items.all fun p =>
    !conflicts S f.profile.profile_owned_env
      (operator_view f.profile.profile_owned_env c.kind s) p.1 p.2

/-- The attempt with a profile: the write loop up to the first conflict, and the bookkeeping and the
    injection if there is none. -/
def attempt_of (disk : Disk) (f : ProfileFile) (c : Call) (s : LoaderState S) : Attempt where
  value k :=
    (if complete f c s then engine_value disk f c k else none).or
      (if eff_operator S f.profile.profile_owned_env k then none else (reached f c s).lookup k)
  records k := complete f c s &&
    (((merged_env s.environ f c).keys.contains k && !eff_operator S f.profile.profile_owned_env k) ||
      (injected_keys S disk f c).contains k)
  overrides k := ((reached f c s).map Prod.fst).contains k && (S k).isSome &&
    f.profile.profile_owned_env.contains k

/-- The attempt of a call, which may find no profile. -/
def attempt (disk : Disk) (c : Call) (s : LoaderState S) : Attempt :=
  match loaded disk c s.environ with
  | none => ⟨fun _ => none, fun _ => false, fun _ => false⟩
  | some f => attempt_of disk f c s

variable {disk : Disk} {f : ProfileFile} {c : Call} {s : LoaderState S}

theorem complete_iff : complete f c s = true ↔ NoConflict f c s := by
  simp [complete, NoConflict, Conflict]

theorem reached_of_complete (h : complete f c s = true) :
    reached f c s = (merged_env s.environ f c).items := by
  refine List.takeWhile_eq_self_iff.2 fun p hp => ?_
  simpa [Conflict] using complete_iff.1 h p hp

theorem reached_of_stops {pre : List (String × String)} {k v : String}
    (h : StopsAt f c s pre k v) : reached f c s = pre ∧ complete f c s = false := by
  obtain ⟨post, hsplit⟩ := h.split
  constructor
  · unfold reached
    rw [hsplit, List.takeWhile_append_of_pos]
    · have hstop := h.conflict
      unfold Conflict at hstop
      simp [hstop]
    · intro p hp
      simpa [Conflict] using h.before p hp
  · rw [← Bool.not_eq_true, complete_iff]
    exact fun hn => hn (k, v) (by simp [hsplit]) h.conflict

/-! ### What an attempt leaves -/

/-- `t` is what the attempt `a` has made of `s`: its values over the variables that no record of `s`
    mentions or that are outside the kind, and its records. -/
structure Left (kd : Kind) (s t : LoaderState S) (a : Attempt) : Prop where
  environ : ∀ k, k ∉ s.applied → k ∉ s.owned_overrides →
    t.environ k = (a.value k).or (s.environ k)
  environ_outside : ∀ k, key_kind k ≠ some kd → t.environ k = (a.value k).or (s.environ k)
  applied : ∀ k, k ∉ s.applied → (k ∈ t.applied ↔ a.records k = true)
  applied_outside : ∀ k, key_kind k ≠ some kd →
    (k ∈ t.applied ↔ k ∈ s.applied ∨ a.records k = true)
  owned : ∀ k, k ∉ s.owned_overrides → (k ∈ t.owned_overrides ↔ a.overrides k = true)

theorem Left.nothing (kd : Kind) (s : LoaderState S) :
    Left kd s s ⟨fun _ => none, fun _ => false, fun _ => false⟩ :=
  ⟨by simp, by simp, by simp, by simp, by simp⟩

variable {kd : Kind}

theorem reached_lookup_outside {k : String} (hk : key_kind k ≠ some kd) (hc : c.kind = some kd) :
    (reached f c s).lookup k = none := by
  refine Option.not_isSome_iff_eq_none.1 fun h => ?_
  obtain ⟨p, hp, hpk⟩ := List.mem_map.1 ((Dict.lookup_isSome k _).1 h)
  have hmem : k ∈ (merged_env s.environ f c).keys :=
    List.mem_map.2 ⟨p, List.takeWhile_prefix _ |>.subset hp, hpk⟩
  have hscope := mem_merged_in_scope hmem
  rw [hc, in_scope_some] at hscope
  exact hk hscope

theorem not_mem_relinquished_outside {owned : List String} {k : String}
    (hk : key_kind k ≠ some kd) : k ∉ relinquished owned (some kd) s := fun hr => by
  simpa [not_in_scope hk] using (mem_relinquished.1 hr).2.2

/-- A finished call leaves what its attempt says. -/
theorem finished_left (hc : c.kind = some kd) (h : complete f c s = true) :
    Left kd s (finished disk f c s) (attempt_of disk f c s) := by
  have hvalue : ∀ k, (attempt_of disk f c s).value k = (engine_value disk f c k).or
      (if eff_operator S f.profile.profile_owned_env k then none
        else (merged_env s.environ f c).get? k) := fun k => by
    simp only [attempt_of, h, if_true, reached_of_complete h]
    rfl
  refine ⟨fun k ha hw => ?_, fun k hk => ?_, fun k ha => ?_, fun k hk => ?_, fun k hw => ?_⟩
  · have hrel : k ∉ relinquished f.profile.profile_owned_env c.kind s := fun hr =>
      hw (mem_relinquished.1 hr).1
    rw [finished_environ, hvalue, Option.or_assoc]
    cases he : eff_operator S f.profile.profile_owned_env k <;> simp [base_value, he, ha, hrel]
  · have hget : (merged_env s.environ f c).get? k = none := by
      rw [← Option.not_isSome_iff_eq_none, Dict.get?_isSome]
      intro hm
      have hscope := mem_merged_in_scope hm
      rw [hc, in_scope_some] at hscope
      exact hk hscope
    have hrel : k ∉ relinquished f.profile.profile_owned_env (some kd) s :=
      not_mem_relinquished_outside hk
    rw [finished_environ, hvalue, hget, ite_self, Option.or_none]
    simp [base_value, hget, hc, hrel, not_in_scope hk]
  · rw [mem_finished_applied]
    simp [attempt_of, h, ha]
  · rw [mem_finished_applied]
    simp [attempt_of, h, hc, not_in_scope hk]
  · rw [mem_finished_owned]
    simp [attempt_of, hw, reached_of_complete h, Dict.keys, and_assoc]

/-- So does a call that stops at a conflict. -/
theorem stopped_left (hc : c.kind = some kd) {pre : List (String × String)} {k v : String}
    (h : StopsAt f c s pre k v) :
    Left kd s (written f.profile.profile_owned_env pre
      (prepared f.profile.profile_owned_env c.kind (merged_env s.environ f c).keys s))
      (attempt_of disk f c s) := by
  obtain ⟨hpre, hcomplete⟩ := reached_of_stops h
  have hvalue : ∀ k, (attempt_of disk f c s).value k =
      if eff_operator S f.profile.profile_owned_env k then none else pre.lookup k := fun k => by
    simp [attempt_of, hcomplete, hpre]
  have hlookup := fun j hj => hpre ▸ @reached_lookup_outside S f c s kd j hj hc
  refine ⟨fun j ha hw => ?_, fun j hj => ?_, fun j ha => ?_, fun j hj => ?_, fun j hw => ?_⟩
  · have hrel : j ∉ relinquished f.profile.profile_owned_env c.kind s := fun hr =>
      hw (mem_relinquished.1 hr).1
    rw [hvalue]
    cases he : eff_operator S f.profile.profile_owned_env j with
    | true => rw [written_environ_eff he, prepared_environ_eff he, if_neg hrel]; simp
    | false =>
      rw [written_environ_not_eff he _ _ h.nodup, prepared_environ_not_eff he]
      simp [clears, ha]
  · rw [hvalue, hlookup j hj, ite_self, Option.none_or]
    cases he : eff_operator S f.profile.profile_owned_env j with
    | true =>
      rw [written_environ_eff he, prepared_environ_eff he, hc,
        if_neg (not_mem_relinquished_outside hj)]
    | false =>
      rw [written_environ_not_eff he _ _ h.nodup, prepared_environ_not_eff he, hlookup j hj]
      simp [clears, hc, not_in_scope hj]
  · rw [written_applied, prepared_applied]
    simp [attempt_of, hcomplete, ha]
  · rw [written_applied, prepared_applied]
    simp [attempt_of, hcomplete]
  · rw [mem_written_owned, prepared_owned, Finset.mem_sdiff]
    simp [attempt_of, hpre, hw, and_assoc]

theorem attempt_left (hc : c.kind = some kd) :
    Left kd s (apply_profile disk c s).1 (attempt disk c s) := by
  unfold attempt
  cases hf : loaded disk c s.environ with
  | none =>
    rw [apply_profile_not_loaded hf]
    exact Left.nothing kd s
  | some f =>
    rw [apply_profile_loaded hf]
    rcases reconcile_cases disk f c s with ⟨hn, hr⟩ | ⟨pre, k, v, hst, e, hr⟩
    · rw [hr]
      exact finished_left hc (complete_iff.2 hn)
    · rw [hr]
      exact stopped_left hc hst

/-! ### Applying the old profile again -/

/-- Whether a profile sets a key when it is applied to the end. -/
def Sets (disk : Disk) (f : ProfileFile) (c : Call) (s : LoaderState S) (k : String) : Prop :=
  (engine_value disk f c k).isSome ∨
    (k ∈ (merged_env s.environ f c).keys ∧ eff_operator S f.profile.profile_owned_env k = false)

/-- The profile `f` is in force for the kind: it is the current profile, its keys have its values,
    and the records list its keys and no others of the kind. -/
structure InForce (disk : Disk) (f : ProfileFile) (kd : Kind) (c : Call) (s : LoaderState S) :
    Prop where
  current : s.current = f.profile
  value : ∀ k, key_kind k = some kd → Sets disk f c s k →
    s.environ k = (engine_value disk f c k).or ((merged_env s.environ f c).get? k)
  applied : ∀ k, key_kind k = some kd → (k ∈ s.applied ↔
    (k ∈ (merged_env s.environ f c).keys ∧
      eff_operator S f.profile.profile_owned_env k = false) ∨ k ∈ injected_keys S disk f c)
  shared : ∀ k ∈ injected_keys S disk f c, k ∈ s.applied
  owned : ∀ k ∈ s.owned_overrides, key_kind k = some kd →
    k ∈ (merged_env s.environ f c).keys ∧ k ∈ f.profile.profile_owned_env

/-- What an attempt sets besides the keys of the old profile `f` is undone by applying that again:
    an operator key is handed back or has the value it had, another key was unset and is recorded,
    so that it is cleared, or has the value it had and is not recorded; no shared key is newly
    recorded; and the references of the old profile still mean the same. -/
structure Undone (disk : Disk) (f : ProfileFile) (kd : Kind) (c : Call) (a : Attempt)
    (s : LoaderState S) : Prop where
  operator : ∀ k v, key_kind k = some kd → ¬ Sets disk f c s k → a.value k = some v →
    eff_operator S f.profile.profile_owned_env k = true →
    if a.overrides k then s.environ k = S k else s.environ k = some v
  other : ∀ k v, key_kind k = some kd → ¬ Sets disk f c s k → a.value k = some v →
    eff_operator S f.profile.profile_owned_env k = false →
    if a.records k then s.environ k = none else s.environ k = some v
  shared : ∀ k, key_kind k ≠ some kd → a.records k = true → k ∈ s.applied
  refs : ∀ x ∈ outer_refs f.profile.env (uses_value S f c),
    (key_kind x = some kd → x ∉ s.applied ∧ x ∉ s.owned_overrides) ∧
      ∀ v, a.value x = some v → s.environ x = some v

/-- Attempts set what they record or override. -/
structure Attempt.Sound (a : Attempt) : Prop where
  records : ∀ k, a.value k = none → a.records k = false
  overrides : ∀ k, a.value k = none → a.overrides k = false

theorem injected_keys_sets {k : String} (h : k ∈ injected_keys S disk f c) :
    (engine_value disk f c k).isSome := by
  unfold injected_keys at h
  split at h
  · rename_i hr
    have hres : c.resolve_engines = true := (Bool.and_eq_true_iff.1 hr).1
    rw [engine_value, if_pos hres, exported_isSome]
    exact (List.mem_filter.1 h).1
  · simp at h

theorem attempt_sound (disk : Disk) (c : Call) (s : LoaderState S) : (attempt disk c s).Sound := by
  unfold attempt
  cases loaded disk c s.environ with
  | none => exact ⟨fun _ _ => rfl, fun _ _ => rfl⟩
  | some f =>
    refine ⟨fun k hk => ?_, fun k hk => ?_⟩
    · by_contra hrec
      simp only [attempt_of, Bool.not_eq_false, Bool.and_eq_true, Bool.or_eq_true,
        List.contains_eq_mem, decide_eq_true_eq, Bool.not_eq_true'] at hrec
      obtain ⟨hcomplete, ⟨hmem, he⟩ | hinj⟩ := hrec
      · rw [← Dict.get?_isSome] at hmem
        have hlook : ((reached f c s).lookup k).isSome := by
          rw [reached_of_complete hcomplete]
          exact hmem
        obtain ⟨v, hv⟩ := Option.isSome_iff_exists.1 hlook
        simp [attempt_of, he, hv] at hk
      · obtain ⟨v, hv⟩ := Option.isSome_iff_exists.1 (injected_keys_sets hinj)
        simp [attempt_of, hcomplete, hv] at hk
    · by_contra hover
      simp only [attempt_of, Bool.not_eq_false, Bool.and_eq_true, List.contains_eq_mem,
        decide_eq_true_eq] at hover
      obtain ⟨⟨hmem, hS⟩, hown⟩ := hover
      obtain ⟨v, hv⟩ := Option.isSome_iff_exists.1 ((Dict.lookup_isSome k _).2 hmem)
      have he : eff_operator S f.profile.profile_owned_env k = false :=
        eff_operator_eq_false.2 fun _ => hown
      simp [attempt_of, he, hv] at hk

section
variable {a : Attempt} {t : LoaderState S} {k : String}

/-- A key of the kind that the old profile does not set is in no record. -/
theorem InForce.unrecorded (h : InForce disk f kd c s) (hk : key_kind k = some kd)
    (hns : ¬ Sets disk f c s k) : k ∉ s.applied ∧ k ∉ s.owned_overrides := by
  refine ⟨fun happ => ?_, fun hown => ?_⟩
  · rcases (h.applied k hk).1 happ with hm | hinj
    · exact hns (Or.inr hm)
    · exact hns (Or.inl (injected_keys_sets hinj))
  · obtain ⟨hm, ho⟩ := h.owned k hown hk
    exact hns (Or.inr ⟨hm, eff_operator_eq_false.2 fun _ => ho⟩)

/-- The old profile's values are the same after the attempt. -/
theorem Undone.merged_same (h : Undone disk f kd c a s) (hleft : Left kd s t a)
    (he : eff_operator S f.profile.profile_owned_env k = false) :
    (merged_env t.environ f c).get? k = (merged_env s.environ f c).get? k := by
  refine merged_get?_congr (Or.inl he) fun x hx => ?_
  obtain ⟨hfresh, hvalue⟩ := h.refs x hx
  have hx' : t.environ x = (a.value x).or (s.environ x) := by
    by_cases hxk : key_kind x = some kd
    · exact hleft.environ x (hfresh hxk).1 (hfresh hxk).2
    · exact hleft.environ_outside x hxk
  rw [hx']
  cases hv : a.value x with
  | none => rfl
  | some v => exact (hvalue v hv).symm

/-- A key that neither profile's steps end up setting has the value it had. -/
theorem reapply_unset (hc : c.kind = some kd) (ha : a.Sound) (hforce : InForce disk f kd c s)
    (hundone : Undone disk f kd c a s) (hleft : Left kd s t a) (hk : key_kind k = some kd)
    (hns : ¬ Sets disk f c s k) : base_value f c t k = s.environ k := by
  obtain ⟨hnapp, hnown⟩ := hforce.unrecorded hk hns
  have ht := hleft.environ k hnapp hnown
  have hscope : in_scope c.kind k = true := by rw [hc, in_scope_some]; exact hk
  cases he : eff_operator S f.profile.profile_owned_env k with
  | true =>
    have hrel : k ∈ relinquished f.profile.profile_owned_env c.kind t ↔ a.overrides k = true := by
      rw [mem_relinquished, hleft.owned k hnown]
      simp [(eff_operator_eq_true.1 he).2, hscope]
    rw [base_value, if_pos he]
    simp only [hrel, ht]
    cases hv : a.value k with
    | none => simp [ha.overrides k hv]
    | some v =>
      have hop := hundone.operator k v hk hns hv he
      split at hop
      · rename_i hover
        rw [if_pos hover, hop]
      · rename_i hover
        rw [if_neg hover, hop, Option.some_or]
  | false =>
    have hget : (merged_env t.environ f c).get? k = none := by
      rw [hundone.merged_same hleft he, Dict.get?_eq_none]
      exact fun hm => hns (Or.inr ⟨hm, he⟩)
    have hbase : base_value f c t k = if a.records k = true then none else t.environ k := by
      simp [base_value, he, hget, hscope, hleft.applied k hnapp]
    rw [hbase, ht]
    cases hv : a.value k with
    | none => simp [ha.records k hv]
    | some v =>
      have hother := hundone.other k v hk hns hv he
      split at hother
      · rename_i hrec
        rw [if_pos hrec, hother]
      · rename_i hrec
        rw [if_neg hrec, hother, Option.some_or]

/-- Applying the old profile again, to the end, gives back the state before the attempt. -/
theorem reapply_restores (hc : c.kind = some kd) (ha : a.Sound) (hforce : InForce disk f kd c s)
    (hundone : Undone disk f kd c a s) (hleft : Left kd s t a) :
    (∀ k, key_kind k = some kd → (finished disk f c t).environ k = s.environ k) ∧
      (finished disk f c t).applied = s.applied ∧ (finished disk f c t).current = s.current := by
  refine ⟨fun k hk => ?_, Finset.ext fun k => ?_, ?_⟩
  · rw [finished_environ]
    by_cases hs : Sets disk f c s k
    · rw [hforce.value k hk hs]
      cases hv : engine_value disk f c k with
      | some v => simp
      | none =>
        obtain ⟨hm, he⟩ := hs.resolve_left (by simp [hv])
        obtain ⟨v, hget⟩ := Dict.mem_keys.1 hm
        simp [base_value, he, hundone.merged_same hleft he, hget]
    · have hnone : engine_value disk f c k = none :=
        Option.not_isSome_iff_eq_none.1 fun h => hs (Or.inl h)
      rw [hnone, Option.none_or, reapply_unset hc ha hforce hundone hleft hk hs]
  · rw [mem_finished_applied]
    have hmem : k ∈ (merged_env t.environ f c).keys ↔ k ∈ (merged_env s.environ f c).keys :=
      mem_merged_keys _ _ k
    by_cases hk : key_kind k = some kd
    · have hscope : in_scope c.kind k = true := by rw [hc, in_scope_some]; exact hk
      rw [hforce.applied k hk, hmem]
      simp [hscope]
    · have hscope : in_scope c.kind k = false := by rw [hc]; exact not_in_scope hk
      have hnm : k ∉ (merged_env s.environ f c).keys := fun hm => by
        simp [mem_merged_in_scope hm] at hscope
      rw [hleft.applied_outside k hk, hmem]
      constructor
      · rintro (⟨happ | hrec, -⟩ | ⟨hm, -⟩ | hinj)
        · exact happ
        · exact hundone.shared k hk hrec
        · exact absurd hm hnm
        · exact hforce.shared k hinj
      · exact fun happ => Or.inl ⟨Or.inl happ, hscope⟩
  · rw [finished_current, hforce.current]

end

end

end LocalVoice.ProfileLoader
