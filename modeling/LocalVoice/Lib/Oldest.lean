import Mathlib.Data.Int.Notation
import Mathlib.Data.Nat.Notation

/-! Items are dropped from the front of a list while their weights, with what is kept anyway, exceed a
    budget, down to a least number of items. What is left is the longest suffix within the budget
    (`drop_oldest_spec`). -/

namespace LocalVoice.Lib

section
variable {β : Type*}

/-- What the items weigh together. -/
def weigh (weight : β → ℤ) : List β → ℤ
  | [] => 0
  | x :: xs => weight x + weigh weight xs

/-- The items that are left, the running total, and how many were dropped. -/
def drop_oldest (weight : β → ℤ) (budget : ℤ) (min_keep : ℕ) (total : ℤ) : List β → List β × ℤ × ℕ
  | [] => ([], total, 0)
  | x :: xs =>
    if budget < total ∧ min_keep < (x :: xs).length then
      let r := drop_oldest weight budget min_keep (total - weight x) xs
      (r.1, r.2.1, r.2.2 + 1)
    else (x :: xs, total, 0)

/-- `extra` is the weight of what is kept anyway. -/
structure Oldest (weight : β → ℤ) (budget : ℤ) (min_keep : ℕ) (extra : ℤ) (xs : List β)
    (r : List β × ℤ × ℕ) : Prop where
  suffix : r.1 <:+ xs
  total : r.2.1 = weigh weight r.1 + extra
  enough : r.2.1 ≤ budget ∨ r.1.length ≤ min_keep
  longest : ∀ k, k <:+ xs → r.1.length < k.length → budget < weigh weight k + extra
  dropped : r.2.2 + r.1.length = xs.length
  kept : min_keep ≤ xs.length → min_keep ≤ r.1.length

variable {weight : β → ℤ} {budget extra : ℤ} {min_keep : ℕ} {xs ys : List β}

theorem weigh_append : weigh weight (xs ++ ys) = weigh weight xs + weigh weight ys := by
  induction xs with
  | nil => simp [weigh]
  | cons x xs ih => simp only [List.cons_append, weigh, ih, Int.add_assoc]

theorem weigh_nonneg (hw : ∀ x, 0 ≤ weight x) : 0 ≤ weigh weight xs := by
  induction xs with
  | nil => exact Int.le_refl 0
  | cons x xs ih => exact Int.add_nonneg (hw x) ih

theorem weigh_suffix_le (hw : ∀ x, 0 ≤ weight x) (h : xs <:+ ys) : weigh weight xs ≤ weigh weight ys := by
  obtain ⟨front, rfl⟩ := h
  have hfront : 0 ≤ weigh weight front := weigh_nonneg hw
  rw [weigh_append]
  omega

theorem drop_oldest_spec : Oldest weight budget min_keep extra xs
    (drop_oldest weight budget min_keep (weigh weight xs + extra) xs) := by
  induction xs with
  | nil => exact ⟨List.suffix_refl _, rfl, Or.inr (Nat.zero_le _), fun k hk hlt => by
      simp [List.suffix_nil.1 hk, drop_oldest] at hlt, rfl, fun h => h⟩
  | cons x xs ih =>
    unfold drop_oldest
    split
    · next hover =>
      have htotal : weigh weight (x :: xs) + extra - weight x = weigh weight xs + extra := by
        simp only [weigh]
        omega
      rw [htotal]
      refine ⟨ih.suffix.trans (List.suffix_cons x xs), ih.total, ih.enough, fun k hk hlt => ?_, ?_,
        fun _ => ?_⟩
      · rcases List.suffix_cons_iff.1 hk with rfl | hk
        · exact hover.1
        · exact ih.longest k hk hlt
      · have := ih.dropped
        simp only [List.length_cons]
        omega
      · exact ih.kept (Nat.le_of_lt_succ hover.2)
    · next hnot =>
      refine ⟨List.suffix_refl _, rfl, ?_, fun k hk hlt => ?_, Nat.zero_add _, fun h => h⟩
      · rcases Int.lt_or_le budget (weigh weight (x :: xs) + extra) with hlt | hle
        · exact Or.inr (Nat.not_lt.1 fun hlong => hnot ⟨hlt, hlong⟩)
        · exact Or.inl hle
      · exact absurd hk.length_le (Nat.not_le.2 hlt)

end

end LocalVoice.Lib
