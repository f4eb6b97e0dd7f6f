import Mathlib.Data.List.Basic

/-! The first occurrence of a pattern in a text that is read in pieces. While no occurrence is in what was
    read, the one to come begins at the longest end of it that begins the pattern, or later: what stands
    before that end can be given on. -/

namespace LocalVoice.Lib
variable {α : Type*} [DecidableEq α]

/-- Where the pattern first occurs. -/
def find (pat : List α) : List α → Option ℕ
  | [] => if pat = [] then some 0 else none
  | b :: rest => if pat.isPrefixOf (b :: rest) then some 0 else (find pat rest).map (· + 1)

/-- The end of length `k` is the longest of the text that begins the pattern, short of all of it. -/
structure HeldBack (pat text : List α) (k : ℕ) : Prop where
  le : k ≤ text.length
  proper : k < pat.length
  eq : text.drop (text.length - k) = pat.take k
  longest : ∀ m, k < m → m < pat.length → ¬ pat.take m <:+ text

section
variable {pat s t : List α} {i n k : ℕ}

/-- Where no occurrence begins the search goes on behind. -/
theorem find_drop (hle : n ≤ s.length) (h : ∀ j < n, ¬ pat <+: s.drop j) :
    find pat s = (find pat (s.drop n)).map (· + n) := by
  induction n generalizing s with
  | zero => simp
  | succ n ih =>
    cases s with
    | nil => exact absurd hle (Nat.not_succ_le_zero n)
    | cons b s =>
      have hfirst : ¬ pat.isPrefixOf (b :: s) = true := by
        rw [List.isPrefixOf_iff_prefix]
        exact h 0 (Nat.succ_pos n)
      have hrest : find pat s = (find pat (s.drop n)).map (· + n) :=
        ih (Nat.le_of_succ_le_succ hle) fun j hj => h (j + 1) (Nat.succ_lt_succ hj)
      rw [find, if_neg hfirst, hrest, Option.map_map, List.drop_succ_cons]
      rfl

/-- An occurrence is at the place that is found, and none before. -/
theorem find_some (h : find pat s = some i) :
    i + pat.length ≤ s.length ∧ pat <+: s.drop i ∧ ∀ j < i, ¬ pat <+: s.drop j := by
  induction s generalizing i with
  | nil =>
    rw [find] at h
    split at h
    · next hnil =>
      obtain rfl := Option.some.inj h
      subst hnil
      exact ⟨Nat.le_refl 0, List.nil_prefix, fun j hj => absurd hj (Nat.not_lt_zero j)⟩
    · cases h
  | cons b s ih =>
    rw [find] at h
    split at h
    · next hfirst =>
      obtain rfl := Option.some.inj h
      have hprefix := List.isPrefixOf_iff_prefix.1 hfirst
      exact ⟨by simpa using hprefix.length_le, hprefix, fun j hj => absurd hj (Nat.not_lt_zero j)⟩
    · next hfirst =>
      obtain ⟨m, hm, rfl⟩ := Option.map_eq_some_iff.1 h
      obtain ⟨hle, hprefix, hbefore⟩ := ih hm
      refine ⟨by rw [List.length_cons]; omega, hprefix, fun j hj => ?_⟩
      cases j with
      | zero => exact mt List.isPrefixOf_iff_prefix.2 hfirst
      | succ j => exact hbefore j (Nat.lt_of_succ_lt_succ hj)

theorem find_none (h : find pat s = none) (j : ℕ) (hj : j ≤ s.length) : ¬ pat <+: s.drop j := by
  induction s generalizing j with
  | nil =>
    obtain rfl := Nat.le_zero.1 hj
    intro hprefix
    rw [find, if_pos (List.prefix_nil.1 hprefix)] at h
    cases h
  | cons b s ih =>
    rw [find] at h
    split at h
    · cases h
    · next hfirst =>
      cases j with
      | zero => exact mt List.isPrefixOf_iff_prefix.2 hfirst
      | succ j => exact ih (Option.map_eq_none_iff.1 h) j (Nat.le_of_succ_le_succ hj)

theorem find_front (h : pat <+: s) : find pat s = some 0 := by
  cases s with
  | nil => rw [find, if_pos (List.prefix_nil.1 h)]
  | cons b s => rw [find, if_pos (List.isPrefixOf_iff_prefix.2 h)]

/-- What comes behind an occurrence makes no difference to the first one. -/
theorem find_append (h : find pat s = some i) (t : List α) : find pat (s ++ t) = some i := by
  obtain ⟨hle, hprefix, hbefore⟩ := find_some h
  have hi : i ≤ s.length := Nat.le_trans (Nat.le_add_right i _) hle
  have hdrop : ∀ j, j ≤ i → (s ++ t).drop j = s.drop j ++ t := fun j hj =>
    List.drop_append_of_le_length (Nat.le_trans hj hi)
  rw [find_drop (n := i) (by rw [List.length_append]; omega), find_front]
  · simp
  · rw [hdrop i (Nat.le_refl i)]
    exact hprefix.trans (List.prefix_append _ _)
  · intro j hj hlonger
    rw [hdrop j (Nat.le_of_lt hj)] at hlonger
    refine hbefore j hj (List.prefix_of_prefix_length_le hlonger (List.prefix_append _ _) ?_)
    rw [List.length_drop]
    omega

/-- The next occurrence begins in the end that is held back, or behind it. -/
theorem find_held (h : find pat s = none) (hheld : HeldBack pat s k) (t : List α) :
    find pat (s ++ t) = (find pat (s.drop (s.length - k) ++ t)).map (· + (s.length - k)) := by
  rw [find_drop (n := s.length - k) (by rw [List.length_append]; omega),
    List.drop_append_of_le_length (Nat.sub_le ..)]
  intro j hj hprefix
  have hj' : j ≤ s.length := by omega
  rw [List.drop_append_of_le_length hj'] at hprefix
  rcases List.prefix_or_prefix_of_prefix hprefix (List.prefix_append (s.drop j) t) with hin | hout
  · exact find_none h j hj' hin
  · -- the end from `j` on would begin the pattern, and it is longer than the one held back
    have hend : s.drop j = pat.take (s.length - j) := by
      rw [List.prefix_iff_eq_take.1 hout, List.length_drop]
    rcases Nat.lt_or_ge (s.length - j) pat.length with hlt | hge
    · exact hheld.longest (s.length - j) (by omega) hlt (hend ▸ List.drop_suffix j s)
    · rw [List.take_of_length_le hge] at hend
      exact find_none h j hj' (hend ▸ List.prefix_refl _)

/-- What is held back holds no occurrence. -/
theorem find_held_none (hproper : k < pat.length) : find pat (pat.take k) = none := by
  cases hfound : find pat (pat.take k) with
  | none => rfl
  | some i =>
    have hle := (find_some hfound).1
    rw [List.length_take] at hle
    omega

end

end LocalVoice.Lib
