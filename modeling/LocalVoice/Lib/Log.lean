import Mathlib.Data.List.Basic

/-! Logs that grow at their end: an entry that is answered by a later one, and two entries that have an
    answer to the first between them. -/

namespace LocalVoice.Lib

variable {α : Type*} {p p' : α → Prop} {q q' r : α → α → Prop} {l : List α} {a : α}

/-- Every entry with `p` has a later one that answers it. -/
def Answered (p : α → Prop) (q : α → α → Prop) (l : List α) : Prop :=
  ∀ pre x post, l = pre ++ x :: post → p x → ∃ y ∈ post, q x y

/-- Between two entries in `r`, the first one is answered. -/
def Parted (r q : α → α → Prop) (l : List α) : Prop :=
  ∀ pre x mid y post, l = pre ++ x :: (mid ++ y :: post) → r x y → ∃ z ∈ mid, q x z

/-- An entry of a longer log is one of the log before, or the last one. -/
theorem concat_split {pre post : List α} {x : α} (h : l ++ [a] = pre ++ x :: post) :
    (∃ post', post = post' ++ [a] ∧ l = pre ++ x :: post') ∨ post = [] ∧ x = a ∧ l = pre := by
  rcases List.eq_nil_or_concat post with rfl | ⟨post', b, rfl⟩
  · obtain ⟨hl, hx⟩ := List.append_inj' h rfl
    exact Or.inr ⟨rfl, (List.cons.inj hx).1.symm, hl⟩
  · have h' : l ++ [a] = (pre ++ x :: post') ++ [b] := by simpa using h
    obtain ⟨hl, hb⟩ := List.append_inj' h' rfl
    obtain rfl := (List.cons.inj hb).1
    exact Or.inl ⟨post', by simp, hl⟩

theorem Answered.nil : Answered p q [] := by
  intro pre x post h
  simp at h

/-- What is not asked for needs no answer. -/
theorem Answered.of_none (h : ∀ x ∈ l, ¬ p x) : Answered p q l := by
  rintro pre x post rfl hx
  exact absurd hx (h x (by simp))

theorem Answered.mono (h : Answered p q l) (hp : ∀ x ∈ l, p' x → p x) (hq : ∀ x y, q x y → q' x y) :
    Answered p' q' l := by
  rintro pre x post rfl hx
  obtain ⟨y, hy, hxy⟩ := h pre x post rfl (hp x (by simp) hx)
  exact ⟨y, hy, hq x y hxy⟩

/-- An entry that asks for nothing changes nothing. -/
theorem Answered.concat (h : Answered p q l) (ha : ¬ p a) : Answered p q (l ++ [a]) := by
  intro pre x post heq hx
  rcases concat_split heq with ⟨post', rfl, hl⟩ | ⟨-, rfl, -⟩
  · obtain ⟨y, hy, hxy⟩ := h pre x post' hl hx
    exact ⟨y, List.mem_append_left _ hy, hxy⟩
  · exact absurd hx ha

/-- An entry that answers all that were asked before. -/
theorem Answered.of_last (ha : ¬ p a) (hq : ∀ x ∈ l, p x → q x a) : Answered p q (l ++ [a]) := by
  intro pre x post heq hx
  rcases concat_split heq with ⟨post', rfl, hl⟩ | ⟨-, rfl, -⟩
  · exact ⟨a, by simp, hq x (by rw [hl]; simp) hx⟩
  · exact absurd hx ha

theorem Parted.nil : Parted r q [] := by
  intro pre x mid y post h
  simp at h

theorem Parted.mono (h : Parted r q l) (hq : ∀ x y, q x y → q' x y) : Parted r q' l := by
  intro pre x mid y post heq hxy
  obtain ⟨z, hz, hxz⟩ := h pre x mid y post heq hxy
  exact ⟨z, hz, hq x z hxz⟩

/-- A new entry is parted from those before it that were answered. -/
theorem Parted.concat (h : Parted r q l) (ha : Answered (fun x => r x a) q l) :
    Parted r q (l ++ [a]) := by
  intro pre x mid y post heq hxy
  rcases concat_split heq with ⟨post', hpost, hl⟩ | ⟨hnil, -, -⟩
  · rcases concat_split hpost.symm with ⟨post'', rfl, rfl⟩ | ⟨rfl, rfl, rfl⟩
    · exact h pre x mid y post'' hl hxy
    · exact ha pre x _ hl hxy
  · simp at hnil

end LocalVoice.Lib
