import Mathlib.Logic.Basic

/-! Structured code with exceptions: early returns, `try`/`except`, `try`/`finally`, and calls whose
    outcome is up to the environment. An execution records the states in which the code was
    suspended in a call. `Triple A P p Q` says that `p`, started in a state of `P`, is suspended in
    states of `A` only and ends as `Q` says; there is one rule for each kind of statement. `replay`
    computes the execution that a list of choices leads to. -/

namespace LocalVoice.Lib

/-- How a statement ends. -/
inductive Outcome (ε : Type) where
  | done
  | returned
  | raised (e : ε)
  deriving DecidableEq

/-- A statement over a state `σ` and exceptions `ε`. -/
inductive Flow (σ ε : Type) where
  /-- A change of the state that cannot fail. -/
  | act (f : σ → σ)
  /-- A call or an await: it finishes, or raises anything. -/
  | call
  | ret
  | throw (e : ε)
  | seq (p q : Flow σ ε)
  /-- An `if` on something the state does not hold. -/
  | choose (p q : Flow σ ε)
  /-- `try: p except catches as e: h e`. -/
  | handle (catches : ε → Bool) (p : Flow σ ε) (h : ε → Flow σ ε)
  /-- `try: p finally: q`. -/
  | ensure (p q : Flow σ ε)

namespace Flow
variable {σ ε : Type}

/-- `pass`. -/
def skip : Flow σ ε := .act id

/-- An `if` without an `else`. -/
def maybe (p : Flow σ ε) : Flow σ ε := .choose p .skip

/-- The executions of a statement: from `s`, suspended in the states of the list, it ends in the
    last state. -/
inductive Exec : Flow σ ε → σ → List σ → Outcome ε → σ → Prop where
  | act {f : σ → σ} {s : σ} : Exec (.act f) s [] .done (f s)
  | call {s : σ} : Exec .call s [s] .done s
  | call_raised {s : σ} {e : ε} : Exec .call s [s] (.raised e) s
  | ret {s : σ} : Exec .ret s [] .returned s
  | throw {s : σ} {e : ε} : Exec (.throw e) s [] (.raised e) s
  | seq {p q : Flow σ ε} {s t u : σ} {l l' : List σ} {o : Outcome ε} :
    Exec p s l .done t → Exec q t l' o u → Exec (.seq p q) s (l ++ l') o u
  | seq_left {p q : Flow σ ε} {s t : σ} {l : List σ} {o : Outcome ε} :
    Exec p s l o t → o ≠ .done → Exec (.seq p q) s l o t
  | left {p q : Flow σ ε} {s t : σ} {l : List σ} {o : Outcome ε} :
    Exec p s l o t → Exec (.choose p q) s l o t
  | right {p q : Flow σ ε} {s t : σ} {l : List σ} {o : Outcome ε} :
    Exec q s l o t → Exec (.choose p q) s l o t
  | handled {catches : ε → Bool} {p : Flow σ ε} {h : ε → Flow σ ε} {s t u : σ} {l l' : List σ}
    {e : ε} {o : Outcome ε} : Exec p s l (.raised e) t → catches e = true →
    Exec (h e) t l' o u → Exec (.handle catches p h) s (l ++ l') o u
  | unhandled {catches : ε → Bool} {p : Flow σ ε} {h : ε → Flow σ ε} {s t : σ} {l : List σ}
    {o : Outcome ε} : Exec p s l o t → (∀ e, o = .raised e → catches e = false) →
    Exec (.handle catches p h) s l o t
  | ensure {p q : Flow σ ε} {s t u : σ} {l l' : List σ} {o : Outcome ε} :
    Exec p s l o t → Exec q t l' .done u → Exec (.ensure p q) s (l ++ l') o u
  | ensure_left {p q : Flow σ ε} {s t u : σ} {l l' : List σ} {o o' : Outcome ε} :
    Exec p s l o t → Exec q t l' o' u → o' ≠ .done → Exec (.ensure p q) s (l ++ l') o' u

/-- What `p` does from any state of `P`. -/
def Triple (A P : σ → Prop) (p : Flow σ ε) (Q : Outcome ε → σ → Prop) : Prop :=
  ∀ s l o t, P s → Exec p s l o t → (∀ u ∈ l, A u) ∧ Q o t

/-- The ends of `p` when `q` follows it. -/
def Then (M : σ → Prop) (Q : Outcome ε → σ → Prop) : Outcome ε → σ → Prop
  | .done => M
  | o => Q o

/-- The ends of `p` where the exceptions of `catches` are handled from `M`. -/
def Caught (catches : ε → Bool) (M : ε → σ → Prop) (Q : Outcome ε → σ → Prop) :
    Outcome ε → σ → Prop
  | .raised e => fun t => if catches e then M e t else Q (.raised e) t
  | o => Q o

section
variable {A P P' M : σ → Prop} {p q : Flow σ ε} {Q Q' : Outcome ε → σ → Prop}

theorem Triple.mono (h : Triple A P p Q) (hP : ∀ s, P' s → P s) (hQ : ∀ o t, Q o t → Q' o t) :
    Triple A P' p Q' := by
  intro s l o t hs hrun
  obtain ⟨hl, ht⟩ := h s l o t (hP s hs) hrun
  exact ⟨hl, hQ o t ht⟩

theorem triple_act {f : σ → σ} (h : ∀ s, P s → Q .done (f s)) : Triple A P (.act f) Q := by
  intro s l o t hs hrun
  cases hrun
  exact ⟨nofun, h s hs⟩

theorem triple_skip (h : ∀ s, P s → Q .done s) : Triple A P .skip Q := triple_act h

theorem triple_call (hA : ∀ s, P s → A s) (hd : ∀ s, P s → Q .done s)
    (hr : ∀ e s, P s → Q (.raised e) s) : Triple A P .call Q := by
  intro s l o t hs hrun
  cases hrun with
  | call => exact ⟨by simpa using hA s hs, hd s hs⟩
  | call_raised => exact ⟨by simpa using hA s hs, hr _ s hs⟩

theorem triple_ret (h : ∀ s, P s → Q .returned s) : Triple A P .ret Q := by
  intro s l o t hs hrun
  cases hrun
  exact ⟨nofun, h s hs⟩

theorem triple_throw {e : ε} (h : ∀ s, P s → Q (.raised e) s) : Triple A P (.throw e) Q := by
  intro s l o t hs hrun
  cases hrun
  exact ⟨nofun, h s hs⟩

theorem triple_seq (hp : Triple A P p (Then M Q)) (hq : Triple A M q Q) :
    Triple A P (.seq p q) Q := by
  intro s l o t hs hrun
  cases hrun with
  | seq hrun hrun' =>
    obtain ⟨hl, hm⟩ := hp _ _ _ _ hs hrun
    obtain ⟨hl', ht⟩ := hq _ _ _ _ hm hrun'
    exact ⟨fun u hu => (List.mem_append.1 hu).elim (hl u) (hl' u), ht⟩
  | seq_left hrun hne =>
    obtain ⟨hl, ht⟩ := hp _ _ _ _ hs hrun
    refine ⟨hl, ?_⟩
    cases o with
    | done => exact absurd rfl hne
    | returned | raised => exact ht

theorem triple_choose (hp : Triple A P p Q) (hq : Triple A P q Q) : Triple A P (.choose p q) Q := by
  intro s l o t hs hrun
  cases hrun with
  | left hrun => exact hp _ _ _ _ hs hrun
  | right hrun => exact hq _ _ _ _ hs hrun

theorem triple_maybe (hp : Triple A P p Q) (hs : ∀ s, P s → Q .done s) : Triple A P (.maybe p) Q :=
  triple_choose hp (triple_skip hs)

theorem triple_handle {catches : ε → Bool} {h : ε → Flow σ ε} {M : ε → σ → Prop}
    (hp : Triple A P p (Caught catches M Q))
    (hh : ∀ e, catches e = true → Triple A (M e) (h e) Q) : Triple A P (.handle catches p h) Q := by
  intro s l o t hs hrun
  cases hrun with
  | @handled _ _ _ _ _ _ _ _ e _ hrun hc hrun' =>
    obtain ⟨hl, hm⟩ := hp _ _ _ _ hs hrun
    simp only [Caught, hc, if_true] at hm
    obtain ⟨hl', ht⟩ := hh e hc _ _ _ _ hm hrun'
    exact ⟨fun u hu => (List.mem_append.1 hu).elim (hl u) (hl' u), ht⟩
  | unhandled hrun hc =>
    obtain ⟨hl, ht⟩ := hp _ _ _ _ hs hrun
    refine ⟨hl, ?_⟩
    cases o with
    | raised e => simpa [Caught, hc e rfl] using ht
    | done | returned => exact ht

theorem triple_ensure {M : Outcome ε → σ → Prop} (hp : Triple A P p M)
    (hq : ∀ o, Triple A (M o) q (Then (Q o) Q)) : Triple A P (.ensure p q) Q := by
  intro s l o t hs hrun
  cases hrun with
  | ensure hrun hrun' =>
    obtain ⟨hl, hm⟩ := hp _ _ _ _ hs hrun
    obtain ⟨hl', ht⟩ := hq _ _ _ _ _ hm hrun'
    exact ⟨fun u hu => (List.mem_append.1 hu).elim (hl u) (hl' u), ht⟩
  | ensure_left hrun hrun' hne =>
    obtain ⟨hl, hm⟩ := hp _ _ _ _ hs hrun
    obtain ⟨hl', ht⟩ := hq _ _ _ _ _ hm hrun'
    refine ⟨fun u hu => (List.mem_append.1 hu).elim (hl u) (hl' u), ?_⟩
    cases o with
    | done => exact absurd rfl hne
    | returned | raised => exact ht

end

/-- What the environment decides: how a call ends, which way an `if` goes. -/
inductive Choice (ε : Type) where
  | finishes
  | raises (e : ε)
  | left
  | right

/-- The execution that the choices lead to, and the choices that are left. -/
def replay : Flow σ ε → σ → List (Choice ε) →
    Option ((List σ × Outcome ε × σ) × List (Choice ε))
  | .act f, s, cs => some (([], .done, f s), cs)
  | .call, s, .finishes :: cs => some (([s], .done, s), cs)
  | .call, s, .raises e :: cs => some (([s], .raised e, s), cs)
  | .ret, s, cs => some (([], .returned, s), cs)
  | .throw e, s, cs => some (([], .raised e, s), cs)
  | .seq p q, s, cs =>
    match p.replay s cs with
    | some ((l, .done, t), cs) => (q.replay t cs).map fun r => ((l ++ r.1.1, r.1.2), r.2)
    | r => r
  | .choose p _, s, .left :: cs => p.replay s cs
  | .choose _ q, s, .right :: cs => q.replay s cs
  | .handle catches p h, s, cs =>
    match p.replay s cs with
    | some ((l, .raised e, t), cs) =>
      if catches e then ((h e).replay t cs).map fun r => ((l ++ r.1.1, r.1.2), r.2)
      else some ((l, .raised e, t), cs)
    | r => r
  | .ensure p q, s, cs =>
    match p.replay s cs with
    | some ((l, o, t), cs) =>
      match q.replay t cs with
      | some ((l', .done, u), cs) => some ((l ++ l', o, u), cs)
      | some ((l', o', u), cs) => some ((l ++ l', o', u), cs)
      | none => none
    | none => none
  | _, _, _ => none

theorem exec_of_replay {p : Flow σ ε} {s t : σ} {l : List σ} {o : Outcome ε}
    (cs : List (Choice ε)) {cs' : List (Choice ε)}
    (h : p.replay s cs = some ((l, o, t), cs')) : Exec p s l o t := by
  induction p generalizing s l o t cs cs' with
  | act f =>
    simp only [replay, Option.some.injEq, Prod.mk.injEq] at h
    obtain ⟨⟨rfl, rfl, rfl⟩, -⟩ := h
    exact .act
  | call =>
    rcases cs with _ | ⟨_ | e | _ | _, cs⟩ <;>
      simp only [replay, Option.some.injEq, Prod.mk.injEq, reduceCtorEq] at h
    · obtain ⟨⟨rfl, rfl, rfl⟩, -⟩ := h
      exact .call
    · obtain ⟨⟨rfl, rfl, rfl⟩, -⟩ := h
      exact .call_raised
  | ret =>
    simp only [replay, Option.some.injEq, Prod.mk.injEq] at h
    obtain ⟨⟨rfl, rfl, rfl⟩, -⟩ := h
    exact .ret
  | throw e =>
    simp only [replay, Option.some.injEq, Prod.mk.injEq] at h
    obtain ⟨⟨rfl, rfl, rfl⟩, -⟩ := h
    exact .throw
  | seq p q ihp ihq =>
    simp only [replay] at h
    split at h
    · rename_i hp
      obtain ⟨⟨⟨l', o', u⟩, cs''⟩, hq, heq⟩ := Option.map_eq_some_iff.1 h
      simp only [Prod.mk.injEq] at heq
      obtain ⟨⟨rfl, rfl, rfl⟩, -⟩ := heq
      exact .seq (ihp _ hp) (ihq _ hq)
    · rename_i hne
      exact .seq_left (ihp _ h) fun ho => hne _ _ _ (ho ▸ h)
  | choose p q ihp ihq =>
    rcases cs with _ | ⟨_ | e | _ | _, cs⟩ <;> simp only [replay, reduceCtorEq] at h
    · exact .left (ihp _ h)
    · exact .right (ihq _ h)
  | handle catches p hd ihp ihh =>
    simp only [replay] at h
    split at h
    · rename_i hp
      split at h
      · obtain ⟨⟨⟨l', o', u⟩, cs''⟩, hq, heq⟩ := Option.map_eq_some_iff.1 h
        simp only [Prod.mk.injEq] at heq
        obtain ⟨⟨rfl, rfl, rfl⟩, -⟩ := heq
        exact .handled (ihp _ hp) ‹_› (ihh _ _ hq)
      · rename_i hc
        simp only [Option.some.injEq, Prod.mk.injEq] at h
        obtain ⟨⟨rfl, rfl, rfl⟩, -⟩ := h
        refine .unhandled (ihp _ hp) fun e he => ?_
        obtain rfl := Outcome.raised.inj he
        exact Bool.not_eq_true _ ▸ hc
    · rename_i hne
      exact .unhandled (ihp _ h) fun e he => absurd (he ▸ h) (hne _ _ _ _)
  | ensure p q ihp ihq =>
    simp only [replay] at h
    split at h
    · rename_i hp
      split at h
      · rename_i hq
        simp only [Option.some.injEq, Prod.mk.injEq] at h
        obtain ⟨⟨rfl, rfl, rfl⟩, -⟩ := h
        exact .ensure (ihp _ hp) (ihq _ hq)
      · rename_i hne hq
        simp only [Option.some.injEq, Prod.mk.injEq] at h
        obtain ⟨⟨rfl, rfl, rfl⟩, -⟩ := h
        exact .ensure_left (ihp _ hp) (ihq _ hq) hne
      · cases h
    · cases h

end Flow
end LocalVoice.Lib
