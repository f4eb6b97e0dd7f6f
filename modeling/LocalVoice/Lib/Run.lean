import Mathlib.Logic.Relation

/-! Runs of a labelled transition system, and the one induction every invariant proof needs: what
    holds at the start and is kept by each step holds in every state a run reaches. A run whose
    steps all meet a condition is a run of the restricted relation. -/

namespace LocalVoice.Lib

/-- `Run step s as t`: from `s` the labels `as`, taken one after the other, can lead to `t`. -/
inductive Run {σ α : Type*} (step : σ → α → σ → Prop) (s : σ) : List α → σ → Prop where
  | nil : Run step s [] s
  | snoc {as : List α} {t u : σ} {a : α} : Run step s as t → step t a u → Run step s (as ++ [a]) u

namespace Run
variable {σ α : Type*} {step : σ → α → σ → Prop}

/-- A property of the start that every step keeps holds in each state a run reaches. -/
theorem invariant {I : σ → Prop} (hstep : ∀ {s a t}, I s → step s a t → I t) {s t : σ}
    {as : List α} (hs : I s) (h : Run step s as t) : I t := by
  induction h with
  | nil => exact hs
  | snoc _ hst ih => exact hstep ih hst

/-- More steps are allowed in a larger relation. -/
theorem mono {step' : σ → α → σ → Prop} (hle : ∀ {s a t}, step s a t → step' s a t) {s t : σ}
    {as : List α} (h : Run step s as t) : Run step' s as t := by
  induction h with
  | nil => exact .nil
  | snoc _ hst ih => exact .snoc ih (hle hst)

theorem append {s t u : σ} {as bs : List α} (h : Run step s as t) (h' : Run step t bs u) :
    Run step s (as ++ bs) u := by
  induction h' with
  | nil => simpa using h
  | snoc _ hst ih => rw [← List.append_assoc]; exact .snoc ih hst

theorem single {s t : σ} {a : α} (h : step s a t) : Run step s [a] t := .snoc .nil h

/-- The last step of a run. -/
theorem concat_inv {s u : σ} {as : List α} {a : α} (h : Run step s (as ++ [a]) u) :
    ∃ t, Run step s as t ∧ step t a u := by
  generalize hbs : as ++ [a] = bs at h
  cases h with
  | nil => simp at hbs
  | snoc hrun hst =>
    obtain ⟨rfl, hlast⟩ := List.append_inj' hbs rfl
    obtain rfl := List.cons.inj hlast |>.1
    exact ⟨_, hrun, hst⟩

/-- Where steps are a function of the label, so are runs. -/
theorem det {s t t' : σ} {as : List α} (h : Run step s as t) (h' : Run step s as t')
    (hdet : ∀ s a t t', step s a t → step s a t' → t = t') : t = t' := by
  induction h generalizing t' with
  | nil =>
    generalize hbs : ([] : List α) = bs at h'
    cases h' with
    | nil => rfl
    | snoc => simp at hbs
  | snoc _ hst ih =>
    obtain ⟨u, hu, hst'⟩ := h'.concat_inv
    obtain rfl := ih hu
    exact hdet _ _ _ _ hst hst'

end Run

/-- The labels taken one after the other by a step function; `none` when one of them cannot be. -/
def replay {σ α : Type*} (step : σ → α → Option σ) : σ → List α → Option σ
  | s, [] => some s
  | s, a :: as => (step s a).bind fun t => replay step t as

@[simp] theorem replay_nil {σ α : Type*} (step : σ → α → Option σ) (s : σ) :
    replay step s [] = some s := rfl

theorem replay_cons {σ α : Type*} (step : σ → α → Option σ) (s : σ) (a : α) (as : List α) :
    replay step s (a :: as) = (step s a).bind fun t => replay step t as := rfl

theorem replay_append {σ α : Type*} (step : σ → α → Option σ) (s : σ) (as bs : List α) :
    replay step s (as ++ bs) = (replay step s as).bind fun t => replay step t bs := by
  induction as generalizing s with
  | nil => rfl
  | cons a as ih =>
    rw [List.cons_append, replay_cons, replay_cons, Option.bind_assoc]
    congr 1
    funext t
    exact ih t

/-- What can be replayed is a run. -/
theorem Run.of_replay {σ α : Type*} {step : σ → α → Option σ} {s t : σ} {as : List α}
    (h : replay step s as = some t) : Run (fun s a t => step s a = some t) s as t := by
  induction as generalizing s with
  | nil =>
    obtain rfl : s = t := Option.some.inj h
    exact .nil
  | cons a as ih =>
    obtain ⟨u, hu, hrest⟩ := Option.bind_eq_some_iff.1 h
    exact Run.append (Run.single hu) (ih hrest)

/-- What a replay ends in is what a run leads to. -/
theorem Run.of_replay_any {σ α : Type*} (step : σ → α → Option σ) (s : σ) (as : List α)
    (p : σ → Bool) (h : (replay step s as).any p = true) :
    ∃ t, Run (fun s a t => step s a = some t) s as t ∧ p t = true := by
  obtain ⟨t, ht, hp⟩ := (Option.any_eq_true _ _).1 h
  exact ⟨t, Run.of_replay ht, hp⟩

/-- The steps of `step` that meet the condition `ok` on the state before them and their label. -/
def restrict {σ α : Type*} (ok : σ → α → Prop) (step : σ → α → σ → Prop) : σ → α → σ → Prop :=
  fun s a t => ok s a ∧ step s a t

/-- A run whose labels meet a condition in every state is a run of the restricted relation. -/
theorem Run.restrict_of {σ α : Type*} {ok : σ → α → Prop} {step : σ → α → σ → Prop} {s t : σ}
    {as : List α} (h : Run step s as t) (hok : ∀ a ∈ as, ∀ u, ok u a) :
    Run (restrict ok step) s as t := by
  induction h with
  | nil => exact .nil
  | snoc _ hst ih =>
    exact .snoc (ih fun a ha => hok a (List.mem_append_left _ ha)) ⟨hok _ (by simp) _, hst⟩

/-- A replay that checks the condition before each step is a run of the restricted relation. -/
theorem Run.restrict_mono {σ α : Type*} {ok : σ → α → Prop} [∀ s a, Decidable (ok s a)]
    {step : σ → α → Option σ} {s t : σ} {as : List α}
    (h : Run (fun s a t => (if ok s a then step s a else none) = some t) s as t) :
    Run (restrict ok fun s a t => step s a = some t) s as t := by
  refine h.mono fun {s a t} hst => ?_
  split at hst
  · next hok => exact ⟨hok, hst⟩
  · cases hst

/-- What can be replayed with the condition checked before each step is a restricted run. -/
theorem Run.of_replay_if {σ α : Type*} {ok : σ → α → Prop} [∀ s a, Decidable (ok s a)]
    {step : σ → α → Option σ} {s t : σ} {as : List α}
    (h : replay (fun s a => if ok s a then step s a else none) s as = some t) :
    Run (restrict ok fun s a t => step s a = some t) s as t :=
  Run.restrict_mono (Run.of_replay h)

end LocalVoice.Lib
