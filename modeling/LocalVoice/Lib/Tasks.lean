import Mathlib.Data.List.Induction

/-! Tasks numbered by arrival. A list holds where each task stands, a new task is appended, a task
    that moves is replaced in place. `total f` adds up a weight over the tasks, so what a system
    says about how many tasks do something is arithmetic on the task that moved. -/

namespace LocalVoice.Lib

/-- The sum of a weight over all tasks. -/
def total {α : Type*} (f : α → ℕ) : List α → ℕ
  | [] => 0
  | a :: l => f a + total f l

section
variable {α : Type*} {f g : α → ℕ} {l : List α} {i : ℕ} {a b : α}

@[simp] theorem total_nil : total f [] = 0 := rfl

@[simp] theorem total_cons : total f (a :: l) = f a + total f l := rfl

@[simp] theorem total_concat : total f (l ++ [a]) = total f l + f a := by
  induction l with
  | nil => simp
  | cons c l ih => simp only [List.cons_append, total_cons, ih]; omega

/-- A task that moves changes the sum by the difference of its two weights. -/
theorem total_set (h : l[i]? = some a) : total f (l.set i b) + f a = total f l + f b := by
  induction l generalizing i with
  | nil => simp at h
  | cons c l ih =>
    cases i with
    | zero =>
      obtain rfl : c = a := by simpa using h
      simp only [List.set_cons_zero, total_cons]
      omega
    | succ i =>
      have hl : total f (l.set i b) + f a = total f l + f b := ih (by simpa using h)
      simp only [List.set_cons_succ, total_cons]
      omega

theorem total_eq_zero (h : ∀ a ∈ l, f a = 0) : total f l = 0 := by
  induction l with
  | nil => rfl
  | cons c l ih =>
    rw [total_cons, h c (by simp), ih fun a ha => h a (by simp [ha])]

theorem total_le_total (h : ∀ a ∈ l, f a ≤ g a) : total f l ≤ total g l := by
  induction l with
  | nil => exact Nat.le_refl 0
  | cons c l ih =>
    exact Nat.add_le_add (h c (by simp)) (ih fun a ha => h a (by simp [ha]))

/-- Two lists of weights, compared task by task. -/
theorem total_le_of_get {β : Type*} {k : β → ℕ} {m : List β} (hlen : l.length = m.length)
    (h : ∀ (i : ℕ) a b, l[i]? = some a → m[i]? = some b → f a ≤ k b) : total f l ≤ total k m := by
  induction l generalizing m with
  | nil => exact Nat.zero_le _
  | cons a l ih =>
    cases m with
    | nil => simp at hlen
    | cons b m =>
      have hrest : total f l ≤ total k m :=
        ih (by simpa using hlen) fun i a b ha hb =>
          h (i + 1) a b (by simpa using ha) (by simpa using hb)
      exact Nat.add_le_add (h 0 a b rfl rfl) hrest

theorem total_add : total (fun a => f a + g a) l = total f l + total g l := by
  induction l with
  | nil => rfl
  | cons c l ih => simp only [total_cons, ih]; omega

/-- The task that moved is where it moved to, the others are where they were. -/
theorem get_set_iff (h : l[i]? = some a) {j : ℕ} {c : α} :
    (l.set i b)[j]? = some c ↔ i = j ∧ b = c ∨ i ≠ j ∧ l[j]? = some c := by
  have hlt : i < l.length := (List.getElem?_eq_some_iff.1 h).1
  by_cases hij : i = j
  · subst hij
    simp [hlt]
  · simp [List.getElem?_set_ne hij, hij]

/-- The new task has the next number. -/
theorem get_concat_iff {j : ℕ} {c : α} :
    (l ++ [a])[j]? = some c ↔ l[j]? = some c ∨ j = l.length ∧ a = c := by
  rcases Nat.lt_trichotomy j l.length with hj | hj | hj
  · simp [List.getElem?_append_left hj, Nat.ne_of_lt hj]
  · subst hj
    simp
  · have hnone : l[j]? = none := List.getElem?_eq_none (Nat.le_of_lt hj)
    have hsub : j - l.length ≠ 0 := Nat.sub_ne_zero_of_lt hj
    simp [List.getElem?_append_right (Nat.le_of_lt hj), hnone, Nat.ne_of_gt hj, hsub]

/-- Different tasks that all weigh something are no more than the sum. -/
theorem length_le_total {ns : List ℕ} (hnd : ns.Nodup)
    (h : ∀ n ∈ ns, ∃ a, l[n]? = some a ∧ 1 ≤ f a) : ns.length ≤ total f l := by
  induction l using List.reverseRecOn generalizing ns with
  | nil =>
    cases ns with
    | nil => simp
    | cons n ns =>
      obtain ⟨a, ha, _⟩ := h n (by simp)
      simp at ha
  | append_singleton l b ih =>
    have hrest : (ns.erase l.length).length ≤ total f l := by
      refine ih (hnd.erase _) fun n hn => ?_
      obtain ⟨hne, hn⟩ := hnd.mem_erase_iff.1 hn
      obtain ⟨a, ha, hpos⟩ := h n hn
      rcases get_concat_iff.1 ha with ha | ⟨heq, _⟩
      · exact ⟨a, ha, hpos⟩
      · exact absurd heq hne
    rw [total_concat]
    by_cases hlast : l.length ∈ ns
    · obtain ⟨a, ha, hpos⟩ := h _ hlast
      obtain rfl : b = a := by simpa using ha
      have hlen := List.length_erase_of_mem hlast
      omega
    · rw [List.erase_of_not_mem hlast] at hrest
      omega

theorem total_map : total id (l.map f) = total f l := by
  induction l with
  | nil => rfl
  | cons c l ih => simp only [List.map_cons, total_cons, id, ih]

/-- A change that keeps the weight of every task keeps the sum. -/
theorem total_congr {l' : List α} (h : ∀ i : ℕ, (l'[i]?).map f = (l[i]?).map f) :
    total f l' = total f l := by
  have hmap : l'.map f = l.map f := by
    refine List.ext_getElem? fun i => ?_
    rw [List.getElem?_map, List.getElem?_map, h]
  rw [← total_map, hmap, total_map]

theorem lt_length_of_get (h : l[i]? = some a) : i < l.length :=
  (List.getElem?_eq_some_iff.1 h).1

end

end LocalVoice.Lib
