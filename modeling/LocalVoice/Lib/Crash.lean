import Mathlib.Data.Nat.Notation
import Mathlib.Logic.Basic

/-! Sequential programs over a durable state, as trees of single durable steps and reads. A program
    may be stopped in front of any step and after the last one (`Stops`), and what holds in all those
    states and at the end is computed along the tree (`Holds`), so it composes over `bind`. A
    recovery that may be stopped too, again and again, is covered once it keeps the crash invariant
    of the operation (`recovered`). -/

namespace LocalVoice.Lib

/-- A program over the state `σ`: it returns, makes one durable step, or reads the state. -/
inductive Prog (σ α : Type) where
  | ret (a : α)
  | act (f : σ → σ) (next : Prog σ α)
  | look (k : σ → Prog σ α)

namespace Prog
variable {σ α β ι : Type}

def bind : Prog σ α → (α → Prog σ β) → Prog σ β
  | .ret a, f => f a
  | .act g next, f => .act g (next.bind f)
  | .look k, f => .look fun s => (k s).bind f

instance : Monad (Prog σ) where
  pure := .ret
  bind := .bind

/-- Read the state. -/
def get : Prog σ σ := .look .ret

/-- One durable step. -/
def step (f : σ → σ) : Prog σ Unit := .act f (.ret ())

/-- Durable steps, one after the other. -/
def steps : List (σ → σ) → Prog σ Unit
  | [] => .ret ()
  | f :: fs => .act f (steps fs)

/-- A loop over a list. -/
def forEach (f : ι → Prog σ Unit) : List ι → Prog σ Unit
  | [] => .ret ()
  | x :: xs => (f x) >>= fun _ => forEach f xs

/-- What the program returns and the state it leaves when nothing stops it. -/
def run : Prog σ α → σ → α × σ
  | .ret a, s => (a, s)
  | .act f next, s => next.run (f s)
  | .look k, s => (k s).run s

theorem run_get_bind (f : σ → Prog σ α) (s : σ) : (get >>= f).run s = (f s).run s := rfl

theorem run_bind (p : Prog σ α) (f : α → Prog σ β) (s : σ) :
    (p >>= f).run s = (f (p.run s).1).run (p.run s).2 := by
  show (p.bind f).run s = _
  induction p generalizing s with
  | ret a => rfl
  | act g next ih => exact ih (g s)
  | look k ih => exact ih s s

/-- The program, started in the first state, can be stopped in the second one. -/
def Stops : Prog σ α → σ → σ → Prop
  | .ret _, s, t => t = s
  | .act f next, s, t => t = s ∨ next.Stops (f s) t
  | .look k, s, t => (k s).Stops s t

/-- The state after the first `n` steps, or after all there are. -/
def after : ℕ → Prog σ α → σ → σ
  | _, .ret _, s => s
  | 0, .act _ _, s => s
  | n + 1, .act f next, s => next.after n (f s)
  | n, .look k, s => (k s).after n s

/-- From the state `s`, `I` holds wherever the program is stopped and `Q` of what it returns. -/
def Holds (I : σ → Prop) (Q : α → σ → Prop) : Prog σ α → σ → Prop
  | .ret a, s => I s ∧ Q a s
  | .act f next, s => I s ∧ next.Holds I Q (f s)
  | .look k, s => (k s).Holds I Q s

@[simp] theorem after_pure (n : ℕ) (a : α) (s : σ) : (pure a : Prog σ α).after n s = s := by
  cases n <;> rfl

theorem after_get (n : ℕ) (f : σ → Prog σ α) (s : σ) : (get >>= f).after n s = (f s).after n s := by
  cases n <;> rfl

theorem stops_after : ∀ (n : ℕ) (p : Prog σ α) (s : σ), p.Stops s (p.after n s)
  | _, .ret _, _ => rfl
  | 0, .act _ _, _ => Or.inl rfl
  | n + 1, .act f next, s => Or.inr (stops_after n next (f s))
  | n, .look k, s => stops_after n (k s) s

variable {I J : σ → Prop} {Q R : α → σ → Prop}

theorem Holds.stops {p : Prog σ α} {s t : σ} (h : p.Holds I Q s) (ht : p.Stops s t) : I t := by
  induction p generalizing s with
  | ret a =>
    obtain rfl : t = s := ht
    exact h.1
  | act f next ih =>
    rcases ht with rfl | ht
    · exact h.1
    · exact ih h.2 ht
  | look k ih => exact ih s h ht

theorem Holds.run {p : Prog σ α} {s : σ} (h : p.Holds I Q s) : Q (p.run s).1 (p.run s).2 := by
  induction p generalizing s with
  | ret a => exact h.2
  | act f next ih => exact ih h.2
  | look k ih => exact ih s h

theorem Holds.mono {p : Prog σ α} {s : σ} (h : p.Holds I Q s) (hI : ∀ s, I s → J s)
    (hQ : ∀ a s, Q a s → R a s) : p.Holds J R s := by
  induction p generalizing s with
  | ret a => exact ⟨hI _ h.1, hQ _ _ h.2⟩
  | act f next ih => exact ⟨hI _ h.1, ih h.2⟩
  | look k ih => exact ih s h

/-- Of every program something holds, namely nothing. -/
theorem holds_trivial (p : Prog σ α) (s : σ) : p.Holds (fun _ => True) (fun _ _ => True) s := by
  induction p generalizing s with
  | ret a => exact ⟨trivial, trivial⟩
  | act f next ih => exact ⟨trivial, ih (f s)⟩
  | look k ih => exact ih s s

/-! ### Along the constructors -/

theorem holds_bind {Q : β → σ → Prop} {p : Prog σ α} {f : α → Prog σ β} {s : σ}
    (h : p.Holds I (fun a t => (f a).Holds I Q t) s) : (p >>= f).Holds I Q s := by
  show (p.bind f).Holds I Q s
  induction p generalizing s with
  | ret a => exact h.2
  | act g next ih => exact ⟨h.1, ih h.2⟩
  | look k ih => exact ih s h

theorem holds_get {Q : σ → σ → Prop} {s : σ} (hI : I s) (hQ : Q s s) :
    (get : Prog σ σ).Holds I Q s :=
  ⟨hI, hQ⟩

theorem holds_step {Q : Unit → σ → Prop} {f : σ → σ} {s : σ} (hI : I s) (hI' : I (f s))
    (hQ : Q () (f s)) : (step f).Holds I Q s :=
  ⟨hI, hI', hQ⟩

/-- Steps that each keep `K`, which implies the crash invariant. -/
theorem holds_steps {K : σ → Prop} (hK : ∀ s, K s → I s) : ∀ {fs : List (σ → σ)} {s : σ},
    (∀ f ∈ fs, ∀ s, K s → K (f s)) → K s → (steps fs).Holds I (fun _ => K) s
  | [], s, _, hs => ⟨hK s hs, hs⟩
  | f :: _, s, hfs, hs => ⟨hK s hs, holds_steps hK (fun g hg => hfs g (List.mem_cons_of_mem f hg))
      (hfs f List.mem_cons_self s hs)⟩

/-- A loop whose body keeps `K`. -/
theorem holds_forEach {K : σ → Prop} {f : ι → Prog σ Unit} (hK : ∀ s, K s → I s) :
    ∀ {xs : List ι} {s : σ}, (∀ x ∈ xs, ∀ s, K s → (f x).Holds I (fun _ => K) s) → K s →
      (forEach f xs).Holds I (fun _ => K) s
  | [], s, _, hs => ⟨hK s hs, hs⟩
  | x :: _, s, hf, hs => holds_bind ((hf x List.mem_cons_self s hs).mono (fun _ h => h)
      fun _ _ ht => holds_forEach hK (fun y hy => hf y (List.mem_cons_of_mem x hy)) ht)

/-- A loop whose body keeps `K` and `L`, and for one of the elements makes `L` hold. -/
theorem holds_forEach_mem {K L : σ → Prop} {f : ι → Prog σ Unit} (hK : ∀ s, K s → I s) {x : ι} :
    ∀ {xs : List ι} {s : σ}, x ∈ xs → (∀ y ∈ xs, ∀ s, K s → (f y).Holds I (fun _ => K) s) →
      (∀ y ∈ xs, ∀ s, K s ∧ L s → (f y).Holds I (fun _ t => K t ∧ L t) s) →
      (∀ s, K s → (f x).Holds I (fun _ t => K t ∧ L t) s) → K s →
        (forEach f xs).Holds I (fun _ t => K t ∧ L t) s
  | [], _, hx, _, _, _, _ => absurd hx List.not_mem_nil
  | y :: ys, s, hx, hf, hL, hmake, hs => by
    have hrest : ∀ t, K t ∧ L t → (forEach f ys).Holds I (fun _ t => K t ∧ L t) t := fun t ht =>
      holds_forEach (fun _ h => hK _ h.1) (fun z hz => hL z (List.mem_cons_of_mem y hz)) ht
    rcases List.mem_cons.1 hx with rfl | hx
    · exact holds_bind ((hmake s hs).mono (fun _ h => h) fun _ t ht => hrest t ht)
    · refine holds_bind ((hf y List.mem_cons_self s hs).mono (fun _ h => h) fun _ t ht => ?_)
      exact holds_forEach_mem hK hx (fun z hz => hf z (List.mem_cons_of_mem y hz))
        (fun z hz => hL z (List.mem_cons_of_mem y hz)) hmake ht

/-! ### Stopped recoveries -/

/-- Any number of attempts with one of the programs `p i`, each stopped somewhere. -/
inductive Attempts (p : ι → Prog σ α) (s : σ) : σ → Prop where
  | none : Attempts p s s
  | again {t u : σ} (i : ι) : Attempts p s t → (p i).Stops t u → Attempts p s u

/-- If a recovery keeps the crash invariant of an operation and leads from it to `R`, then `R` holds
    once a recovery runs to its end, wherever the operation and earlier recoveries were stopped. -/
theorem recovered {op : Prog σ β} {recover : ι → Prog σ α} {Q : β → σ → Prop} {s t u : σ}
    (hop : op.Holds I Q s) (hrec : ∀ i t, I t → (recover i).Holds I R t) (hstop : op.Stops s t)
    (hatt : Attempts recover t u) (i : ι) : R ((recover i).run u).1 ((recover i).run u).2 := by
  have hu : I u := by
    induction hatt with
    | none => exact hop.stops hstop
    | again j _ hst ih => exact (hrec j _ ih).stops hst
  exact (hrec i u hu).run

end Prog

end LocalVoice.Lib
