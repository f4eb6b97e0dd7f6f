import Mathlib.Data.Int.Notation
import Mathlib.Data.Nat.Notation

/-! Unbroken runs of a property along a sequence whose items weigh the same, and the place where such a
    run totals a given amount for the first time. A counter that is cleared where the property fails
    holds the length of the run (`Streak`), so that it decides whether the amount is reached. -/

namespace LocalVoice.Lib

/-- The run that ends before `k` is `m` long, of the places from `lo` on. -/
structure Streak (p : ℕ → Prop) (lo k m : ℕ) : Prop where
  within : lo + m ≤ k
  unbroken : ∀ j, k ≤ j + m → j < k → p j
  maximal : lo + m = k ∨ ¬ p (k - m - 1)

/-- A run that ends with `i` totals the amount, with a weight of `c` for each place. -/
def Totals (p : ℕ → Prop) (c total : ℤ) (lo i : ℕ) : Prop :=
  ∃ b, lo ≤ b ∧ b ≤ i ∧ (∀ j, b ≤ j → j ≤ i → p j) ∧ total ≤ c * (i + 1 - b)

/-- The first place at which a run totals the amount. -/
structure FirstTotals (p : ℕ → Prop) (c total : ℤ) (lo i : ℕ) : Prop where
  totals : Totals p c total lo i
  first : ∀ j, lo ≤ j → j < i → ¬ Totals p c total lo j

section
variable {p : ℕ → Prop} {c total : ℤ} {lo i j k m b : ℕ}

theorem streak_nil : Streak p lo lo 0 := ⟨Nat.le_refl _, fun _ _ _ => by omega, Or.inl rfl⟩

theorem Streak.extend (h : Streak p lo k m) (hk : p k) : Streak p lo (k + 1) (m + 1) where
  within := by
    have := h.within
    omega
  unbroken := by
    intro j hle hlt
    by_cases hj : j = k
    · exact hj ▸ hk
    · exact h.unbroken j (by omega) (by omega)
  maximal := by
    rcases h.maximal with hall | hstop
    · exact Or.inl (by omega)
    · right
      rwa [show k + 1 - (m + 1) - 1 = k - m - 1 by omega]

theorem streak_broken (hlo : lo ≤ k) (hk : ¬ p k) : Streak p lo (k + 1) 0 where
  within := by omega
  unbroken := fun _ _ _ => by omega
  maximal := Or.inr (by simpa using hk)

theorem Totals.holds (h : Totals p c total lo i) : p i := by
  obtain ⟨b, -, hle, hall, -⟩ := h
  exact hall i hle (Nat.le_refl i)

theorem Totals.le (h : Totals p c total lo i) : lo ≤ i := by
  obtain ⟨b, hlo, hle, -, -⟩ := h
  exact Nat.le_trans hlo hle

/-- The counter decides. -/
theorem Streak.totals_iff (h : Streak p lo k m) (hc : 0 < c) (hk : p k) :
    Totals p c total lo k ↔ total ≤ c * (m + 1) := by
  have hwithin := h.within
  constructor
  · rintro ⟨b, hlo, hle, hall, htotal⟩
    have hstart : k ≤ b + m := by
      rcases h.maximal with heq | hstop
      · omega
      · rcases Nat.lt_or_ge (b + m) k with hlt | hge
        · exact absurd (hall _ (by omega) (by omega)) hstop
        · exact hge
    refine Int.le_trans htotal (Int.mul_le_mul_of_nonneg_left ?_ (Int.le_of_lt hc))
    omega
  · intro htotal
    refine ⟨k - m, by omega, by omega, fun j hle hlt => ?_, ?_⟩
    · exact (h.extend hk).unbroken j (by omega) (by omega)
    · rwa [show (k : ℤ) + 1 - ((k - m : ℕ) : ℤ) = m + 1 by omega]

theorem FirstTotals.unique (h : FirstTotals p c total lo i) (h' : FirstTotals p c total lo j) : i = j := by
  rcases Nat.lt_trichotomy i j with hlt | heq | hlt
  · exact absurd h.totals (h'.first i h.totals.le hlt)
  · exact heq
  · exact absurd h'.totals (h.first j h'.totals.le hlt)

/-- The run that totals the amount does so with its last place only. -/
theorem FirstTotals.short (h : FirstTotals p c total lo i) (hlo : lo ≤ b) (hlt : b < i)
    (hall : ∀ j, b ≤ j → j ≤ i → p j) : c * (i - b) < total := by
  refine Int.not_le.1 fun hge => h.first (i - 1) (by omega) (by omega) ?_
  refine ⟨b, hlo, by omega, fun j hle hj => hall j hle (by omega), ?_⟩
  rwa [show ((i - 1 : ℕ) : ℤ) + 1 - b = i - b by omega]

end

end LocalVoice.Lib
