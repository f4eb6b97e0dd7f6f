

/-! What a computation that may raise returned, peeled apart: a sequence returns if its parts do, a
    loop that only checks returns if every item passes. -/

namespace LocalVoice.Lib
variable {ε α β : Type} {x : Except ε α}

theorem bind_eq_ok {f : α → Except ε β} {b : β} :
    x.bind f = .ok b ↔ ∃ a, x = .ok a ∧ f a = .ok b := by
  cases x <;> simp [Except.bind]

theorem map_eq_ok {f : α → β} {b : β} : x.map f = .ok b ↔ ∃ a, x = .ok a ∧ f a = b := by
  cases x <;> simp [Except.map]

theorem forM_eq_ok {f : α → Except ε Unit} {l : List α} :
    l.forM f = .ok () ↔ ∀ a ∈ l, f a = .ok () := by
  induction l with
  | nil => exact ⟨fun _ => nofun, fun _ => rfl⟩
  | cons a rest ih =>
    have hcons : (a :: rest).forM f = (f a).bind fun _ => rest.forM f := rfl
    rw [hcons, List.forall_mem_cons, ← ih]
    constructor
    · intro h
      obtain ⟨_, ha, hrest⟩ := bind_eq_ok.1 h
      exact ⟨ha, hrest⟩
    · rintro ⟨ha, hrest⟩
      exact bind_eq_ok.2 ⟨(), ha, hrest⟩

/-- A loop over what was written reads back what it was written from. -/
theorem mapM_map_ok {f : β → Except ε α} {g : α → β} {l : List α} (h : ∀ a ∈ l, f (g a) = .ok a) :
    (l.map g).mapM f = .ok l := by
  induction l with
  | nil => rfl
  | cons a rest ih =>
    have hrest := ih fun b hb => h b (List.mem_cons_of_mem _ hb)
    rw [List.map_cons, List.mapM_cons, h a (by simp), hrest]
    rfl

/-- What a loop gathers comes from its items. -/
theorem mem_mapM_ok {f : α → Except ε β} {l : List α} {bs : List β} (h : l.mapM f = .ok bs) :
    ∀ b ∈ bs, ∃ a ∈ l, f a = .ok b := by
  induction l generalizing bs with
  | nil =>
    cases h
    simp
  | cons a rest ih =>
    rw [List.mapM_cons] at h
    obtain ⟨b, hb, h⟩ := bind_eq_ok.1 h
    obtain ⟨cs, hcs, h⟩ := bind_eq_ok.1 h
    cases h
    intro d hd
    rcases List.mem_cons.1 hd with rfl | hd
    · exact ⟨a, by simp, hb⟩
    · obtain ⟨a', ha', hf⟩ := ih hcs d hd
      exact ⟨a', List.mem_cons_of_mem _ ha', hf⟩

end LocalVoice.Lib

/-! A `for` loop over a list whose body may raise, and a condition on the state in front of each pass
    it comes to. -/

namespace LocalVoice.Lib

variable {ι σ : Type}

/-- The loop: each pass changes the state, and says whether the loop goes on; it raises otherwise. -/
def each (body : ι → σ → σ × Bool) : List ι → σ → σ × Bool
  | [], s => (s, true)
  | i :: rest, s => match body i s with
    | (t, true) => each body rest t
    | (t, false) => (t, false)

/-- The condition holds in front of each pass that the loop comes to. -/
def Along (P : ι → σ → Prop) (body : ι → σ → σ × Bool) : List ι → σ → Prop
  | [], _ => True
  | i :: rest, s => P i s ∧ ∀ t, body i s = (t, true) → Along P body rest t

/-- The states after the passes that the loop comes to. -/
def passes (body : ι → σ → σ × Bool) : List ι → σ → List σ
  | [], _ => []
  | i :: rest, s => match body i s with
    | (t, true) => t :: passes body rest t
    | (t, false) => [t]

/-- The loop ends in the state it began in, or in one of those. -/
theorem each_mem (body : ι → σ → σ × Bool) (l : List ι) (s : σ) :
    (each body l s).1 ∈ s :: passes body l s := by
  induction l generalizing s with
  | nil => exact List.mem_cons_self
  | cons i rest ih =>
    unfold each passes
    split
    · exact List.mem_cons_of_mem _ (ih _)
    · simp

/-- What each pass keeps exactly if `Q` holds in front of it, holds after every pass if and only if
    `Q` holds along the loop. -/
theorem passes_iff {Q : ι → σ → Prop} {body : ι → σ → σ × Bool} {J : σ → Prop}
    (hbody : ∀ i s, J s → (J (body i s).1 ↔ Q i s)) {l : List ι} {s : σ} (hs : J s) :
    (∀ t ∈ passes body l s, J t) ↔ Along Q body l s := by
  induction l generalizing s with
  | nil => exact ⟨fun _ => trivial, fun _ _ h => by cases h⟩
  | cons i rest ih =>
    have hstep := hbody i s hs
    unfold passes Along
    rw [← hstep]
    split
    · next t ht =>
      rw [ht]
      simp only [List.forall_mem_cons]
      constructor
      · rintro ⟨hJ, hrest⟩
        refine ⟨hJ, fun u hu => ?_⟩
        obtain rfl : t = u := congrArg Prod.fst hu
        exact (ih hJ).1 hrest
      · rintro ⟨hJ, hrest⟩
        exact ⟨hJ, (ih hJ).2 (hrest t rfl)⟩
    · next t ht =>
      rw [ht]
      simp only [List.mem_singleton, forall_eq]
      exact ⟨fun hJ => ⟨hJ, fun u hu => by cases hu⟩, fun h => h.1⟩

theorem along_true (body : ι → σ → σ × Bool) (l : List ι) (s : σ) :
    Along (fun _ _ => True) body l s := by
  induction l generalizing s with
  | nil => trivial
  | cons i rest ih => exact ⟨trivial, fun t _ => ih t⟩

/-- What each pass keeps holds after every one. -/
theorem passes_invariant {body : ι → σ → σ × Bool} {I : σ → Prop} {l : List ι}
    (hbody : ∀ i s, I s → I (body i s).1) {s : σ} (hs : I s) : ∀ t ∈ passes body l s, I t :=
  (passes_iff (fun i s hi => iff_of_true (hbody i s hi) trivial) hs).2 (along_true body l s)

/-- What each pass keeps under the condition holds at the end of the loop. -/
theorem each_invariant {P : ι → σ → Prop} {body : ι → σ → σ × Bool} {I : σ → Prop} {l : List ι}
    (hbody : ∀ i ∈ l, ∀ s, I s → P i s → I (body i s).1) {s : σ} (hs : I s)
    (hP : Along P body l s) : I (each body l s).1 := by
  induction l generalizing s with
  | nil => exact hs
  | cons i rest ih =>
    have hstep := hbody i List.mem_cons_self s hs hP.1
    unfold each
    split
    · next t ht =>
      rw [ht] at hstep
      exact ih (fun j hj => hbody j (List.mem_cons_of_mem i hj)) hstep (hP.2 t ht)
    · next t ht =>
      rw [ht] at hstep
      exact hstep

/-- A loop whose passes keep `I` under the condition `P`, and where a pass that does not meet `Q`
    raises and leaves a state without `J`: at its end `J` holds if and only if `Q` held along it. -/
theorem each_iff {P Q : ι → σ → Prop} {body : ι → σ → σ × Bool} {I J : σ → Prop} {l : List ι}
    (hJ : ∀ s, I s → J s) (hkeep : ∀ i ∈ l, ∀ s, I s → P i s → Q i s → I (body i s).1)
    (hfail : ∀ i ∈ l, ∀ s, I s → P i s → ¬ Q i s → (body i s).2 = false ∧ ¬ J (body i s).1) {s : σ}
    (hs : I s) (hP : Along P body l s) : J (each body l s).1 ↔ Along Q body l s := by
  induction l generalizing s with
  | nil => exact ⟨fun _ => trivial, fun _ => hJ s hs⟩
  | cons i rest ih =>
    by_cases hQ : Q i s
    · have hstep := hkeep i List.mem_cons_self s hs hP.1 hQ
      unfold each
      split
      · next t ht =>
        rw [ht] at hstep
        rw [ih (fun j hj => hkeep j (List.mem_cons_of_mem i hj))
          (fun j hj => hfail j (List.mem_cons_of_mem i hj)) hstep (hP.2 t ht)]
        refine ⟨fun h => ⟨hQ, fun u hu => ?_⟩, fun h => h.2 t ht⟩
        obtain rfl : t = u := congrArg Prod.fst (ht.symm.trans hu)
        exact h
      · next t ht =>
        rw [ht] at hstep
        refine ⟨fun _ => ⟨hQ, fun u hu => ?_⟩, fun _ => hJ t hstep⟩
        cases ht.symm.trans hu
    · obtain ⟨hraised, hlost⟩ := hfail i List.mem_cons_self s hs hP.1 hQ
      refine ⟨fun h => absurd ?_ hlost, fun h => absurd h.1 hQ⟩
      unfold each at h
      split at h
      · next t ht =>
        rw [ht] at hraised
        cases hraised
      · next t ht =>
        rw [ht]
        exact h

end LocalVoice.Lib
