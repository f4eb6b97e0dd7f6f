import LocalVoice.ProfileLoader.Apply

/-! What one `apply_profile` call does to each variable and each record. The write loop meets every
    key once, so what it leaves in a variable does not depend on the order (`written_environ`), and
    a call that raises has written a prefix of the merged items over the prepared state
    (`reconcile_cases`). Later modules use only these descriptions, never the loop. -/

namespace LocalVoice.ProfileLoader
open LocalVoice.Lib

section
variable {S : Env} {owned : List String}

theorem eff_operator_eq_true {k : String} :
    eff_operator S owned k = true ↔ (S k).isSome ∧ k ∉ owned := by
  simp [eff_operator]

theorem eff_operator_eq_false {k : String} :
    eff_operator S owned k = false ↔ ((S k).isSome → k ∈ owned) := by
  rw [← Bool.not_eq_true, eff_operator_eq_true, not_and_not_right]

/-! ### Preparing: steps 0 and 1 -/

theorem mem_relinquished {kind : Option Kind} {s : LoaderState S} {k : String} :
    k ∈ relinquished owned kind s ↔ k ∈ s.owned_overrides ∧ k ∉ owned ∧ in_scope kind k := by
  simp [relinquished]

theorem relinquished_eff {kind : Option Kind} {s : LoaderState S} {k : String}
    (h : k ∈ relinquished owned kind s) : eff_operator S owned k = true := by
  obtain ⟨hk, hn, -⟩ := mem_relinquished.1 h
  exact eff_operator_eq_true.2 ⟨s.owned_sub k hk, hn⟩

/-- The state the write loop starts from. -/
def prepared (owned : List String) (kind : Option Kind) (new_keys : List String)
    (s : LoaderState S) : LoaderState S :=
  clear_stale owned kind new_keys (relinquish owned kind s)

@[simp] theorem prepared_applied (kind : Option Kind) (nk : List String) (s : LoaderState S) :
    (prepared owned kind nk s).applied = s.applied := rfl

@[simp] theorem prepared_current (kind : Option Kind) (nk : List String) (s : LoaderState S) :
    (prepared owned kind nk s).current = s.current := rfl

theorem prepared_environ (kind : Option Kind) (nk : List String) (s : LoaderState S) (k : String) :
    (prepared owned kind nk s).environ k =
      if clears owned kind nk s k then none
      else if k ∈ relinquished owned kind s then S k else s.environ k := rfl

theorem prepared_owned (kind : Option Kind) (nk : List String) (s : LoaderState S) :
    (prepared owned kind nk s).owned_overrides = s.owned_overrides \ relinquished owned kind s := rfl

theorem clears_eq_true {kind : Option Kind} {nk : List String} {s : LoaderState S} {k : String} :
    clears owned kind nk s k = true ↔
      k ∈ s.applied ∧ k ∉ nk ∧ eff_operator S owned k = false ∧ in_scope kind k = true := by
  simp [clears, and_assoc]

/-- On an operator key that stays the operator's, preparing can only restore. -/
theorem prepared_environ_eff {kind : Option Kind} {nk : List String} {s : LoaderState S}
    {k : String} (h : eff_operator S owned k = true) :
    (prepared owned kind nk s).environ k =
      if k ∈ relinquished owned kind s then S k else s.environ k := by
  have hc : clears owned kind nk s k = false := by simp [clears, h]
  rw [prepared_environ, hc]; rfl

/-- On every other key it can only clear. -/
theorem prepared_environ_not_eff {kind : Option Kind} {nk : List String} {s : LoaderState S}
    {k : String} (h : eff_operator S owned k = false) :
    (prepared owned kind nk s).environ k =
      if clears owned kind nk s k then none else s.environ k := by
  have hr : k ∉ relinquished owned kind s := fun hr => by simp [relinquished_eff hr] at h
  rw [prepared_environ, if_neg hr]

/-- What the write loop finds in an operator key: the restored value or the one that was there. -/
def operator_view (owned : List String) (kind : Option Kind) (s : LoaderState S) : Env := fun k =>
  if k ∈ relinquished owned kind s then S k else s.environ k

theorem conflicts_prepared (kind : Option Kind) (nk : List String) (s : LoaderState S)
    (k v : String) : conflicts S owned (prepared owned kind nk s).environ k v =
      conflicts S owned (operator_view owned kind s) k v := by
  cases h : eff_operator S owned k with
  | true => rw [conflicts, conflicts, prepared_environ_eff h, operator_view]
  | false => simp [conflicts, h]

/-! ### The write loop: step 2 -/

/-- All the assignments the loop makes over `l` when nothing stops it. -/
def written (owned : List String) (l : List (String × String)) (s : LoaderState S) :
    LoaderState S :=
  l.foldl (fun s p => if eff_operator S owned p.1 then s else write_one owned p.1 p.2 s) s

@[simp] theorem written_nil (s : LoaderState S) : written owned [] s = s := rfl

theorem written_cons (p : String × String) (l : List (String × String)) (s : LoaderState S) :
    written owned (p :: l) s =
      written owned l (if eff_operator S owned p.1 then s else write_one owned p.1 p.2 s) := rfl

theorem written_applied : ∀ (l : List (String × String)) (s : LoaderState S),
    (written owned l s).applied = s.applied
  | [], _ => rfl
  | p :: l, s => by rw [written_cons, written_applied l]; split <;> rfl

theorem written_current : ∀ (l : List (String × String)) (s : LoaderState S),
    (written owned l s).current = s.current
  | [], _ => rfl
  | p :: l, s => by rw [written_cons, written_current l]; split <;> rfl

theorem written_environ_eff {k : String} (h : eff_operator S owned k = true) :
    ∀ (l : List (String × String)) (s : LoaderState S),
      (written owned l s).environ k = s.environ k
  | [], _ => rfl
  | (j, w) :: l, s => by
    rw [written_cons, written_environ_eff h l]
    split
    · rfl
    · rename_i hj
      have hjk : k ≠ j := by rintro rfl; exact hj h
      simp [write_one, Function.update_of_ne hjk]

theorem written_environ_not_eff {k : String} (h : eff_operator S owned k = false) :
    ∀ (l : List (String × String)) (s : LoaderState S), (l.map Prod.fst).Nodup →
      (written owned l s).environ k = (l.lookup k).or (s.environ k)
  | [], _, _ => by simp
  | (j, w) :: l, s, hl => by
    rw [List.map_cons, List.nodup_cons] at hl
    rw [written_cons, written_environ_not_eff h l _ hl.2, Dict.lookup_cons_ite]
    by_cases hk : k = j
    · subst hk
      have hnone : l.lookup k = none :=
        Option.not_isSome_iff_eq_none.1 fun hs => hl.1 ((Dict.lookup_isSome k l).1 hs)
      simp [hnone, h, write_one]
    · split <;> simp [hk, write_one]

theorem mem_written_owned {k : String} : ∀ (l : List (String × String)) (s : LoaderState S),
    k ∈ (written owned l s).owned_overrides ↔
      k ∈ s.owned_overrides ∨ (k ∈ l.map Prod.fst ∧ (S k).isSome ∧ k ∈ owned)
  | [], s => by simp
  | (j, w) :: l, s => by
    rw [written_cons, mem_written_owned l]
    by_cases hj : eff_operator S owned j = true
    · have : ¬ (k = j ∧ (S k).isSome ∧ k ∈ owned) := by
        rintro ⟨rfl, -, hk⟩; exact (eff_operator_eq_true.1 hj).2 hk
      simp only [hj, if_true, List.map_cons, List.mem_cons]
      tauto
    · simp only [if_neg hj, write_one, List.map_cons, List.mem_cons]
      by_cases hs : (S j).isSome = true ∧ j ∈ owned
      · have h1 : ((S j).isSome && owned.contains j) = true := by simpa using hs
        simp only [h1, if_true, Finset.mem_insert]
        constructor
        · rintro ((rfl | hk) | hk)
          · exact Or.inr ⟨Or.inl rfl, hs⟩
          · exact Or.inl hk
          · exact Or.inr ⟨Or.inr hk.1, hk.2⟩
        · rintro (hk | ⟨rfl | hk, h2⟩)
          · exact Or.inl (Or.inr hk)
          · exact Or.inl (Or.inl rfl)
          · exact Or.inr ⟨hk, h2⟩
      · have h1 : ((S j).isSome && owned.contains j) = false := by
          rw [← Bool.not_eq_true]; simpa using hs
        simp only [h1, Bool.false_eq_true, if_false]
        constructor
        · rintro (hk | hk)
          · exact Or.inl hk
          · exact Or.inr ⟨Or.inr hk.1, hk.2⟩
        · rintro (hk | ⟨rfl | hk, h2⟩)
          · exact Or.inl hk
          · exact absurd h2 hs
          · exact Or.inr ⟨hk, h2⟩

/-- The loop either writes everything, meeting no conflict, or stops in front of the first one. -/
theorem write_values_cases : ∀ (l : List (String × String)) (s : LoaderState S),
    (write_values owned l s = (written owned l s, none) ∧
      ∀ p ∈ l, conflicts S owned s.environ p.1 p.2 = false) ∨
    ∃ pre k v post, l = pre ++ (k, v) :: post ∧
      write_values owned l s = (written owned pre s, some (k, v)) ∧
      (∀ p ∈ pre, conflicts S owned s.environ p.1 p.2 = false) ∧
      conflicts S owned s.environ k v = true
  | [], s => Or.inl ⟨rfl, by simp⟩
  | (k, v) :: rest, s => by
    by_cases he : eff_operator S owned k = true
    · by_cases hc : conflicts S owned s.environ k v = true
      · exact Or.inr ⟨[], k, v, rest, rfl, by simp [write_values, he, hc], by simp, hc⟩
      · have hw : write_values owned ((k, v) :: rest) s = write_values owned rest s := by
          simp [write_values, he, hc]
        have hwr : ∀ l, written owned ((k, v) :: l) s = written owned l s := fun l => by
          rw [written_cons, if_pos he]
        rcases write_values_cases rest s with ⟨h1, h2⟩ | ⟨pre, j, w, post, hl, h1, h2, h3⟩
        · refine Or.inl ⟨by rw [hw, h1, hwr], ?_⟩
          rintro p (_ | ⟨_, hp⟩)
          · simpa using hc
          · exact h2 p hp
        · refine Or.inr ⟨(k, v) :: pre, j, w, post, by rw [hl]; rfl, by rw [hw, h1, hwr], ?_, h3⟩
          rintro p (_ | ⟨_, hp⟩)
          · simpa using hc
          · exact h2 p hp
    · -- a write to a key that is not an effective operator key makes no conflict and hides none
      have hcong : ∀ p : String × String, conflicts S owned (write_one owned k v s).environ p.1 p.2 =
          conflicts S owned s.environ p.1 p.2 := fun p => by
        by_cases hp : eff_operator S owned p.1 = true
        · have hpk : p.1 ≠ k := fun h => he (h ▸ hp)
          simp [conflicts, write_one, Function.update_of_ne hpk]
        · simp [conflicts, hp]
      have hc : conflicts S owned s.environ k v = false := by simp [conflicts, he]
      have hw : write_values owned ((k, v) :: rest) s =
          write_values owned rest (write_one owned k v s) := by
        simp [write_values, he]
      have hwr : ∀ l, written owned ((k, v) :: l) s = written owned l (write_one owned k v s) :=
        fun l => by rw [written_cons, if_neg he]
      rcases write_values_cases rest (write_one owned k v s) with
        ⟨h1, h2⟩ | ⟨pre, j, w, post, hl, h1, h2, h3⟩
      · refine Or.inl ⟨by rw [hw, h1, hwr], ?_⟩
        rintro p (_ | ⟨_, hp⟩)
        · exact hc
        · exact hcong p ▸ h2 p hp
      · refine Or.inr ⟨(k, v) :: pre, j, w, post, by rw [hl]; rfl, by rw [hw, h1, hwr], ?_,
          hcong (j, w) ▸ h3⟩
        rintro p (_ | ⟨_, hp⟩)
        · exact hc
        · exact hcong p ▸ h2 p hp

/-! ### The merged items and the environment -/

/-- The keys of the `env` block whose value a call uses: it writes the key or compares it with the
    operator's value, and neither a derived value nor an override takes its place. -/
def uses_value (S : Env) (f : ProfileFile) (c : Call) (k : String) : Bool :=
  (!eff_operator S f.profile.profile_owned_env k || critical_keys.contains k) &&
    !((derived f).map Prod.fst).contains k && !(c.overrides.map Prod.fst).contains k

section
variable {f : ProfileFile} {c : Call}

theorem lookup_reverse_isSome {k : String} (l : List (String × String)) :
    (l.reverse.lookup k).isSome ↔ k ∈ l.map Prod.fst := by
  rw [Dict.lookup_isSome]; simp

/-- Which keys a call sets does not depend on the environment. -/
theorem mem_merged_keys (e e' : Env) (k : String) :
    k ∈ (merged_env e f c).keys ↔ k ∈ (merged_env e' f c).keys := by
  rw [← Dict.get?_isSome, ← Dict.get?_isSome, merged_env, merged_env]
  simp only [Dict.get?_filterKeys, Dict.get?_update, Dict.get?_mapValues]
  split <;> simp

/-- The values that a call uses depend on the environment only through the outer references. -/
theorem merged_get?_congr {e d : Env} {k : String}
    (hk : eff_operator S f.profile.profile_owned_env k = false ∨ k ∈ critical_keys)
    (h : ∀ x ∈ outer_refs f.profile.env (uses_value S f c), e x = d x) :
    (merged_env e f c).get? k = (merged_env d f c).get? k := by
  rw [merged_env, merged_env]
  simp only [Dict.get?_filterKeys, Dict.get?_update, Dict.get?_mapValues]
  split
  · cases ho : c.overrides.reverse.lookup k with
    | some v => rw [Option.some_or, Option.some_or]
    | none =>
      cases hd : (derived f).reverse.lookup k with
      | some v => rw [Option.some_or, Option.some_or]
      | none =>
        have h1 : k ∉ c.overrides.map Prod.fst := fun hm => by
          simpa [ho] using (lookup_reverse_isSome _).2 hm
        have h2 : k ∉ (derived f).map Prod.fst := fun hm => by
          simpa [hd] using (lookup_reverse_isSome _).2 hm
        cases hv : f.profile.env.get? k with
        | none => rw [Option.map_none, Option.map_none]
        | some value =>
          have hu : uses_value S f c k = true := by
            simp only [uses_value, Bool.and_eq_true, Bool.or_eq_true, Bool.not_eq_true',
              List.contains_eq_mem, decide_eq_true_eq, decide_eq_false_iff_not]
            exact ⟨⟨hk, h2⟩, h1⟩
          simp [expand_congr hv hu h]
  · rfl

end

/-! ### The whole call -/

/-- The profile file a call gets to, if any. -/
def loaded (disk : Disk) (c : Call) (environ : Env) : Option ProfileFile :=
  match call_ref disk c environ with
  | .ok (some ref) => disk.open_profile ref
  | _ => none

theorem apply_profile_loaded {disk : Disk} {c : Call} {s : LoaderState S} {f : ProfileFile}
    (h : loaded disk c s.environ = some f) : apply_profile disk c s = reconcile disk f c s := by
  unfold loaded at h
  unfold apply_profile
  split at h
  · rename_i ref href
    simp [href, h]
  · cases h

/-- Without a profile to load a call changes nothing. -/
theorem apply_profile_not_loaded {disk : Disk} {c : Call} {s : LoaderState S}
    (h : loaded disk c s.environ = none) : (apply_profile disk c s).1 = s := by
  unfold loaded at h
  unfold apply_profile
  split at h
  · rename_i ref href
    simp [href, h]
  · rename_i hno
    split
    · rfl
    · rfl
    · rename_i ref href
      exact (hno ref href).elim

/-- The state after a call that wrote everything. -/
def finished (disk : Disk) (f : ProfileFile) (c : Call) (s : LoaderState S) : LoaderState S :=
  let owned := f.profile.profile_owned_env
  let merged := merged_env s.environ f c
  let s2 := written owned merged.items (prepared owned c.kind merged.keys s)
  let s3 := { s2 with
    applied := updated_keys S owned c.kind merged.keys s2.applied
    current := f.profile }
  if c.resolve_engines then inject disk c.kind f.profile s3 else s3

/-- The value the profile asks of `k` stands against the operator's, on a CRITICAL key. -/
def Conflict (f : ProfileFile) (c : Call) (s : LoaderState S) (k v : String) : Prop :=
  conflicts S f.profile.profile_owned_env (operator_view f.profile.profile_owned_env c.kind s) k v
    = true

/-- The prefix `pre` of the merged items ends in front of the first conflict `(k, v)`. -/
structure StopsAt (f : ProfileFile) (c : Call) (s : LoaderState S) (pre : List (String × String))
    (k v : String) : Prop where
  split : ∃ post, (merged_env s.environ f c).items = pre ++ (k, v) :: post
  before : ∀ p ∈ pre, ¬ Conflict f c s p.1 p.2
  conflict : Conflict f c s k v

/-- No key of the merged items is in conflict. -/
def NoConflict (f : ProfileFile) (c : Call) (s : LoaderState S) : Prop :=
  ∀ p ∈ (merged_env s.environ f c).items, ¬ Conflict f c s p.1 p.2

theorem reconcile_cases (disk : Disk) (f : ProfileFile) (c : Call) (s : LoaderState S) :
    (NoConflict f c s ∧ reconcile disk f c s = (finished disk f c s, .returned (some f))) ∨
    ∃ pre k v, StopsAt f c s pre k v ∧ ∃ e,
      reconcile disk f c s = (written f.profile.profile_owned_env pre
        (prepared f.profile.profile_owned_env c.kind (merged_env s.environ f c).keys s),
        .raised e) := by
  have hcases := @write_values_cases S f.profile.profile_owned_env (merged_env s.environ f c).items
    (prepared f.profile.profile_owned_env c.kind (merged_env s.environ f c).keys s)
  rcases hcases with ⟨h1, h2⟩ | ⟨pre, k, v, post, hl, h1, h2, h3⟩ <;> simp only [conflicts_prepared] at h2
  · refine Or.inl ⟨fun p hp hc => absurd (h2 p hp) (by simpa [Conflict] using hc), ?_⟩
    unfold prepared at h1
    simp only [reconcile, h1]
    rfl
  · rw [conflicts_prepared] at h3
    refine Or.inr ⟨pre, k, v, ⟨⟨post, hl⟩,
      fun p hp hc => absurd (h2 p hp) (by simpa [Conflict] using hc), h3⟩, ?_⟩
    unfold prepared at h1
    simp only [reconcile, h1]
    exact ⟨_, rfl⟩

/-- A profile without conflict is applied to the end; with one the call raises. -/
theorem reconcile_of_noConflict (disk : Disk) {f : ProfileFile} {c : Call} {s : LoaderState S}
    (h : NoConflict f c s) : reconcile disk f c s = (finished disk f c s, .returned (some f)) := by
  rcases reconcile_cases disk f c s with ⟨-, hr⟩ | ⟨pre, k, v, ⟨⟨post, hsplit⟩, -, hc⟩, -⟩
  · exact hr
  · exact absurd hc (h (k, v) (by simp [hsplit]))

theorem noConflict_of_returned {disk : Disk} {f : ProfileFile} {c : Call} {s : LoaderState S}
    (h : (reconcile disk f c s).2.raises = false) : NoConflict f c s := by
  rcases reconcile_cases disk f c s with ⟨hn, -⟩ | ⟨pre, k, v, -, e, hr⟩
  · exact hn
  · simp [hr, Outcome.raises] at h

theorem finished_current (disk : Disk) (f : ProfileFile) (c : Call) (s : LoaderState S) :
    (finished disk f c s).current = f.profile := by
  unfold finished; dsimp only; split <;> rfl

/-- What the engine injection leaves in a variable, `none` where it writes nothing. -/
def engine_value (disk : Disk) (f : ProfileFile) (c : Call) : Env := fun k =>
  if c.resolve_engines then exported disk c.kind f.profile k else none

/-- What steps 0 to 2 leave in a variable. -/
def base_value (f : ProfileFile) (c : Call) (s : LoaderState S) : Env := fun k =>
  if eff_operator S f.profile.profile_owned_env k then
    if k ∈ relinquished f.profile.profile_owned_env c.kind s then S k else s.environ k
  else ((merged_env s.environ f c).get? k).or
    (if k ∈ s.applied ∧ in_scope c.kind k then none else s.environ k)

theorem written_prepared_environ (f : ProfileFile) (c : Call) (s : LoaderState S) (k : String) :
    (written f.profile.profile_owned_env (merged_env s.environ f c).items
      (prepared f.profile.profile_owned_env c.kind (merged_env s.environ f c).keys s)).environ k =
      base_value f c s k := by
  cases h : eff_operator S f.profile.profile_owned_env k with
  | true => rw [written_environ_eff h, prepared_environ_eff h, base_value, if_pos h]
  | false =>
    have hb : base_value f c s k = ((merged_env s.environ f c).get? k).or
        (if k ∈ s.applied ∧ in_scope c.kind k then none else s.environ k) := by
      simp [base_value, h]
    rw [written_environ_not_eff h _ _ (merged_env s.environ f c).nodup,
      prepared_environ_not_eff h, hb]
    show ((merged_env s.environ f c).get? k).or _ = _
    cases hm : (merged_env s.environ f c).get? k with
    | some v => rfl
    | none => simp [clears, h, Dict.get?_eq_none.1 hm]

/-- A finished call leaves the injected path, else what steps 0 to 2 left. -/
theorem finished_environ (disk : Disk) (f : ProfileFile) (c : Call) (s : LoaderState S)
    (k : String) :
    (finished disk f c s).environ k = (engine_value disk f c k).or (base_value f c s k) := by
  unfold finished engine_value
  dsimp only
  split
  · rw [← written_prepared_environ]
    exact resolve_all_environ ..
  · rw [← written_prepared_environ]
    rfl

theorem mem_finished_owned {disk : Disk} {f : ProfileFile} {c : Call} {s : LoaderState S}
    {k : String} : k ∈ (finished disk f c s).owned_overrides ↔
      (k ∈ s.owned_overrides ∧ (k ∈ f.profile.profile_owned_env ∨ in_scope c.kind k = false)) ∨
      (k ∈ (merged_env s.environ f c).keys ∧ (S k).isSome ∧ k ∈ f.profile.profile_owned_env) := by
  have h : (finished disk f c s).owned_overrides =
      (written f.profile.profile_owned_env (merged_env s.environ f c).items
        (prepared f.profile.profile_owned_env c.kind (merged_env s.environ f c).keys s)).owned_overrides := by
    unfold finished; dsimp only; split <;> rfl
  rw [h, mem_written_owned, prepared_owned, Finset.mem_sdiff, mem_relinquished, ← Dict.keys]
  have hb : in_scope c.kind k = false ↔ ¬ in_scope c.kind k = true := by simp
  rw [hb]
  tauto

/-- The keys the injection adds to `_APPLIED_KEYS`. -/
def injected_keys (S : Env) (disk : Disk) (f : ProfileFile) (c : Call) : List String :=
  if c.resolve_engines && !engine_fails disk c.kind f.profile then
    ((exports disk c.kind f.profile).map Prod.fst).filter fun k => (S k).isNone
  else []

theorem mem_finished_applied {disk : Disk} {f : ProfileFile} {c : Call} {s : LoaderState S}
    {k : String} : k ∈ (finished disk f c s).applied ↔
      (k ∈ s.applied ∧ in_scope c.kind k = false) ∨
      (k ∈ (merged_env s.environ f c).keys ∧
        eff_operator S f.profile.profile_owned_env k = false) ∨
      k ∈ injected_keys S disk f c := by
  unfold finished injected_keys
  dsimp only
  by_cases hr : c.resolve_engines = true
  · simp only [hr, if_true, inject, resolve_all_injected, written_applied, prepared_applied,
      updated_keys, Finset.mem_union, Finset.mem_filter, List.mem_toFinset, List.mem_filter,
      Bool.true_and]
    cases engine_fails disk c.kind f.profile <;> simp [or_assoc]
  · simp [hr, written_applied, updated_keys]

end

end LocalVoice.ProfileLoader
