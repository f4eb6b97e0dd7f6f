import LocalVoice.ProfileLoader.Spec

/-! What a raising `apply_profile` leaves behind. The `RuntimeError` for a CRITICAL key leaves the
    call inside the write loop, when keys have been handed back and cleared and the merged items in
    front of the conflict are written, while `_APPLIED_KEYS` still describes the previous profile.
    The state is the one before the call exactly when none of that had anything to do
    (`raise_atomic_iff`). -/

namespace LocalVoice.ProfileLoader
open LocalVoice.Lib

section
variable {S : Env}

/-- Before the conflict that ends the prefix `pre`, the call has nothing to change: no override to
    hand back, no stale key that is still set, and every earlier key of the profile in force. -/
structure NothingToDo (f : ProfileFile) (c : Call) (s : LoaderState S)
    (pre : List (String × String)) : Prop where
  relinquished : ∀ k ∈ s.owned_overrides, k ∉ f.profile.profile_owned_env →
    in_scope c.kind k = false
  stale : ∀ k ∈ s.applied, k ∉ (merged_env s.environ f c).keys → in_scope c.kind k = true →
    eff_operator S f.profile.profile_owned_env k = false → s.environ k = none
  written : ∀ p ∈ pre, eff_operator S f.profile.profile_owned_env p.1 = false →
    s.environ p.1 = some p.2 ∧ ((S p.1).isSome → p.1 ∈ s.owned_overrides)

variable {f : ProfileFile} {c : Call} {s : LoaderState S} {pre : List (String × String)}
  {k v : String}

/-- The keys of the written prefix are keys of the profile, each once. -/
theorem StopsAt.nodup (h : StopsAt f c s pre k v) : (pre.map Prod.fst).Nodup := by
  obtain ⟨post, hsplit⟩ := h.split
  have := (merged_env s.environ f c).nodup
  rw [hsplit, List.map_append] at this
  exact (List.nodup_append.1 this).1

theorem StopsAt.mem_keys (h : StopsAt f c s pre k v) {j : String} (hj : j ∈ pre.map Prod.fst) :
    j ∈ (merged_env s.environ f c).keys := by
  obtain ⟨post, hsplit⟩ := h.split
  rw [Dict.keys, hsplit, List.map_append]
  exact List.mem_append_left _ hj

theorem relinquished_eq_empty (h : ∀ k ∈ s.owned_overrides, k ∉ f.profile.profile_owned_env →
    in_scope c.kind k = false) : relinquished f.profile.profile_owned_env c.kind s = ∅ := by
  refine Finset.eq_empty_of_forall_notMem fun j hj => ?_
  obtain ⟨h1, h2, h3⟩ := mem_relinquished.1 hj
  simp [h j h1 h2] at h3

/-- The first conflict is the only place the loop can stop at. -/
theorem StopsAt.unique (h : StopsAt f c s pre k v) {pre' : List (String × String)} {k' v' : String}
    (h' : StopsAt f c s pre' k' v') : pre' = pre := by
  obtain ⟨post, hs⟩ := h.split
  obtain ⟨post', hs'⟩ := h'.split
  rcases List.append_eq_append_iff.1 (hs.symm.trans hs') with ⟨as, rfl, has⟩ | ⟨bs, rfl, hbs⟩
  · cases as with
    | nil => simp
    | cons a as =>
      rw [List.cons_append, List.cons.injEq] at has
      exact absurd h.conflict (h'.before (k, v) (by simp [← has.1]))
  · cases bs with
    | nil => simp
    | cons b bs =>
      rw [List.cons_append, List.cons.injEq] at hbs
      exact absurd h'.conflict (h.before (k', v') (by simp [← hbs.1]))

/-- The state at the conflict is the one before the call if and only if nothing was to be done. -/
theorem written_eq_iff (h : StopsAt f c s pre k v) :
    written f.profile.profile_owned_env pre
      (prepared f.profile.profile_owned_env c.kind (merged_env s.environ f c).keys s) = s ↔
      NothingToDo f c s pre := by
  constructor
  · intro heq
    have howned : ∀ j, j ∈ s.owned_overrides ↔
        (j ∈ s.owned_overrides ∧ j ∉ relinquished f.profile.profile_owned_env c.kind s) ∨
        (j ∈ pre.map Prod.fst ∧ (S j).isSome ∧ j ∈ f.profile.profile_owned_env) := fun j => by
      conv_lhs => rw [← heq]
      rw [mem_written_owned, prepared_owned, Finset.mem_sdiff]
    have henv : ∀ j, eff_operator S f.profile.profile_owned_env j = false →
        s.environ j = (pre.lookup j).or (if clears f.profile.profile_owned_env c.kind
          (merged_env s.environ f c).keys s j then none else s.environ j) := fun j hj => by
      conv_lhs => rw [← heq]
      rw [written_environ_not_eff hj _ _ h.nodup, prepared_environ_not_eff hj]
    refine ⟨fun j hj hno => ?_, fun j hj hnk hsc he => ?_, fun p hp he => ⟨?_, fun hS => ?_⟩⟩
    · by_contra hsc
      rcases (howned j).1 hj with ⟨-, hr⟩ | ⟨-, -, hin⟩
      · exact hr (mem_relinquished.2 ⟨hj, hno, by simpa using hsc⟩)
      · exact hno hin
    · have hnone : pre.lookup j = none := Option.not_isSome_iff_eq_none.1 fun hs =>
        hnk (h.mem_keys ((Dict.lookup_isSome j pre).1 hs))
      have := henv j he
      rwa [hnone, if_pos (clears_eq_true.2 ⟨hj, hnk, he, hsc⟩), Option.none_or] at this
    · have := henv p.1 he
      rwa [(Dict.mem_iff_lookup h.nodup).1 hp, Option.some_or] at this
    · exact (howned p.1).2 (Or.inr ⟨List.mem_map.2 ⟨p, hp, rfl⟩, hS, eff_operator_eq_false.1 he hS⟩)
  · rintro ⟨hrel, hstale, hwr⟩
    have hempty := relinquished_eq_empty hrel
    ext j
    · cases he : eff_operator S f.profile.profile_owned_env j with
      | true => rw [written_environ_eff he, prepared_environ_eff he, hempty, if_neg (by simp)]
      | false =>
        rw [written_environ_not_eff he _ _ h.nodup, prepared_environ_not_eff he]
        cases hl : pre.lookup j with
        | some w => rw [(hwr (j, w) ((Dict.mem_iff_lookup h.nodup).2 hl) he).1, Option.some_or]
        | none =>
          rw [Option.none_or]
          split
          · rename_i hc
            obtain ⟨h1, h2, h3, h4⟩ := clears_eq_true.1 hc
            rw [hstale j h1 h2 h4 h3]
          · rfl
    · rw [written_applied, prepared_applied]
    · rw [mem_written_owned, prepared_owned, hempty, Finset.sdiff_empty]
      constructor
      · rintro (hj | ⟨hj, hS, hown⟩)
        · exact hj
        · obtain ⟨p, hp, rfl⟩ := List.mem_map.1 hj
          exact (hwr p hp (eff_operator_eq_false.2 fun _ => hown)).2 hS
      · exact Or.inl
    · rw [written_current, prepared_current]

end

/-- An operator that fixed `LANGUAGE_MODE`, and a profile that asks for another one. -/
def zh_en_environ : Env := fun k => if k = "LANGUAGE_MODE" then some "zh_en" else none

def multilanguage : ProfileFile :=
  ⟨"multi", ⟨none, .update .empty [("FOO", .str "1"), ("LANGUAGE_MODE", .str "multilanguage")],
    none, none, [], []⟩⟩

def multilanguage_disk : Disk := ⟨fun _ => some multilanguage, fun _ => none, fun _ => true⟩

end LocalVoice.ProfileLoader
