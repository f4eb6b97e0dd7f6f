import Mathlib.Logic.Relation
import Mathlib.Order.WellFounded
import LocalVoice.Lib.Dict

/-! Loops that recompute the values of a dictionary in the order of its keys, each from the values as
    they are by then: a value is computed from the new values of the keys before it and from the old
    values of the others (`get?_fill`). If a new value refers to what the values it is computed from
    refer to, what one loop leaves of the references is the relation `Left`. -/

namespace LocalVoice.Lib

namespace Dict
variable {κ ν : Type} [DecidableEq κ]

/-- The items of a list are assigned one after the other, each recomputed from its value and the
    dictionary as it is by then. -/
def fill (f : ν → (κ → Option ν) → ν) : List (κ × ν) → Dict κ ν → Dict κ ν
  | [], d => d
  | (k, v) :: rest, d => fill f rest (d.set k (f v d.get?))

/-- A key comes before another one. -/
def Before (l : List (κ × ν)) (x k : κ) : Prop := (l.map Prod.fst).idxOf x < (l.map Prod.fst).idxOf k

instance (l : List (κ × ν)) (x k : κ) : Decidable (Before l x k) := Nat.decLt _ _

variable {f : ν → (κ → Option ν) → ν} {l : List (κ × ν)} {d : Dict κ ν} {k x : κ} {v : ν}

theorem before_wf (l : List (κ × ν)) : WellFounded (Before l) :=
  (measure fun k => (l.map Prod.fst).idxOf k).wf

theorem Before.mem (h : Before l x k) : x ∈ l.map Prod.fst :=
  List.idxOf_lt_length_iff.1 (Nat.lt_of_lt_of_le h List.idxOf_le_length)

theorem not_before_head (w : ν) : ¬ Before ((k, w) :: l) x k := fun h => by
  rw [Before, List.map_cons, List.idxOf_cons_self] at h
  exact Nat.not_lt_zero _ h

theorem before_cons {i : κ} {w : ν} (hk : k ≠ i) :
    Before ((i, w) :: l) x k ↔ x = i ∨ Before l x k := by
  rw [Before, Before, List.map_cons, List.idxOf_cons_ne _ hk.symm]
  by_cases hx : x = i
  · subst hx
    rw [List.idxOf_cons_self]
    simp
  · rw [List.idxOf_cons_ne _ (Ne.symm hx)]
    simp [hx]

theorem fill_other (h : k ∉ l.map Prod.fst) : (fill f l d).get? k = d.get? k := by
  induction l generalizing d with
  | nil => rfl
  | cons p rest ih =>
    rw [List.map_cons, List.mem_cons, not_or] at h
    rw [fill, ih h.2, get?_set, if_neg h.1]

/-- What a key has after the loop: its value, recomputed from what the keys before it have after the
    loop and the others before it. -/
theorem get?_fill (hnodup : (l.map Prod.fst).Nodup) (h : l.lookup k = some v) :
    (fill f l d).get? k =
      some (f v fun x => if Before l x k then (fill f l d).get? x else d.get? x) := by
  induction l generalizing d with
  | nil => cases h
  | cons p rest ih =>
    obtain ⟨i, w⟩ := p
    rw [List.map_cons, List.nodup_cons] at hnodup
    rw [lookup_cons_ite] at h
    have hhead : ∀ e : Dict κ ν, (fill f rest e).get? i = e.get? i := fun e => fill_other hnodup.1
    by_cases hk : k = i
    · subst hk
      rw [if_pos rfl] at h
      cases h
      rw [fill, hhead, get?_set, if_pos rfl]
      simp only [not_before_head, if_false]
    · rw [if_neg hk] at h
      rw [fill, ih hnodup.2 h]
      refine congrArg (fun look => some (f v look)) (funext fun x => ?_)
      by_cases hx : x = i
      · subst hx
        have hbefore : Before ((x, w) :: rest) x k := (before_cons hk).2 (.inl rfl)
        rw [if_pos hbefore, hhead]
        split <;> rfl
      · have hiff : Before ((i, w) :: rest) x k ↔ Before rest x k := by simp [before_cons hk, hx]
        simp only [hiff, get?_set, if_neg hx]

/-- The keys stay, in their order. -/
theorem keys_set {d : Dict κ ν} (h : k ∈ d.keys) : (d.set k v).keys = d.keys := by
  have hitems : ∀ l : List (κ × ν), k ∈ l.map Prod.fst →
      (setItems k v l).map Prod.fst = l.map Prod.fst := by
    intro l
    induction l with
    | nil => exact nofun
    | cons p rest ih =>
      intro hmem
      rw [setItems]
      split
      · next heq => rw [List.map_cons, List.map_cons, heq]
      · next hne =>
        rw [List.map_cons, List.map_cons, ih (List.mem_of_ne_of_mem (Ne.symm hne) hmem)]
  exact hitems d.items h

theorem keys_fill (h : ∀ k ∈ l.map Prod.fst, k ∈ d.keys) : (fill f l d).keys = d.keys := by
  induction l generalizing d with
  | nil => rfl
  | cons p rest ih =>
    have hset := keys_set (v := f p.2 d.get?) (h p.1 List.mem_cons_self)
    rw [fill, ih fun k hk => hset ▸ h k (List.mem_cons_of_mem _ hk), hset]

end Dict

/-! ### References -/

section
variable {κ : Type} {before R R' : κ → κ → Prop}

/-- What a loop leaves of the references `R`: a reference to a key that comes before is replaced by
    what is left there, one to another key by the references that key has. -/
inductive Left (before R : κ → κ → Prop) : κ → κ → Prop
  | early {i j e : κ} (href : R i j) (hbefore : before j i) (hleft : Left before R j e) :
      Left before R i e
  | late {i j e : κ} (href : R i j) (hbefore : ¬ before j i) (hnext : R j e) : Left before R i e

/-- The equation that holds of the references after a loop determines them. -/
theorem left_iff (hwf : WellFounded before) (h : ∀ i e, R' i e ↔
    ∃ j, R i j ∧ ((before j i ∧ R' j e) ∨ (¬ before j i ∧ R j e))) (i e : κ) :
    R' i e ↔ Left before R i e := by
  induction i using hwf.induction generalizing e with
  | h i ih =>
    rw [h]
    constructor
    · rintro ⟨j, href, ⟨hbefore, hleft⟩ | ⟨hbefore, hnext⟩⟩
      · exact .early href hbefore ((ih j hbefore e).1 hleft)
      · exact .late href hbefore hnext
    · intro hleft
      cases hleft with
      | early href hbefore hleft => exact ⟨_, href, .inl ⟨hbefore, (ih _ hbefore e).2 hleft⟩⟩
      | late href hbefore hnext => exact ⟨_, href, .inr ⟨hbefore, hnext⟩⟩

/-- What is left could be reached. -/
theorem Left.reach {i e : κ} (h : Left before R i e) : Relation.TransGen R i e := by
  induction h with
  | early href _ _ ih => exact .head href ih
  | late href _ hnext => exact .head href (.single hnext)

/-- What is left could be reached, in two steps or more. -/
theorem Left.nested {i e : κ} (h : Left before R i e) :
    ∃ x y, R i x ∧ R x y ∧ Relation.ReflTransGen R y e := by
  cases h with
  | late href _ hnext => exact ⟨_, e, href, hnext, .refl⟩
  | early href _ hleft =>
    obtain ⟨y, hnext, hreach⟩ := Relation.TransGen.head'_iff.1 hleft.reach
    exact ⟨_, y, href, hnext, hreach⟩

end

end LocalVoice.Lib
