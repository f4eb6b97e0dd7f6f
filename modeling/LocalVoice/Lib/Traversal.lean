import Mathlib.Data.List.Nodup
import Mathlib.Logic.Relation
import LocalVoice.Lib.Each

/-! Depth-first visits of a graph in which keys may lead nowhere. One list of visited keys is threaded
    through the visit, so shared nodes come once and cycles end; how deep the visit may go is bounded,
    and as many levels as there are nodes suffice (`visit_enough`). A visit that comes to its end has
    seen what can be reached, and what it has not seen when it halts is a key that leads nowhere. -/

namespace LocalVoice.Lib

/-- The node under a key, if there is one, and the keys a node leads to. -/
structure Graph (κ ν : Type) where
  node : κ → Option ν
  next : ν → List κ

namespace Graph
variable {κ ν : Type}

/-- The nodes visited so far, in order, and their keys. -/
structure Visited (κ ν : Type) where
  ordered : List ν
  seen : List κ

/-- Why a visit does not come to its end: a key without a node, or the bound on the depth. -/
inductive Halt (κ : Type) where
  | missing (k : κ)
  | depth

variable [DecidableEq κ] (g : Graph κ ν)

def visit : ℕ → κ → Visited κ ν → Except (Halt κ) (Visited κ ν)
  | 0, _, _ => .error .depth
  | n + 1, k, s =>
    if k ∈ s.seen then .ok s
    else match g.node k with
      | none => .error (.missing k)
      | some v => (g.next v).foldlM (fun s k => visit n k s) ⟨s.ordered ++ [v], k :: s.seen⟩

/-- The nodes below a list of keys. -/
def traverse (n : ℕ) (ks : List κ) : Except (Halt κ) (List ν) :=
  (ks.foldlM (fun s k => g.visit n k s) ⟨[], []⟩).map Visited.ordered

/-- One key leads to another. -/
def Leads (a b : κ) : Prop := ∃ v, g.node a = some v ∧ b ∈ g.next v

/-- What can be reached from a list of keys. -/
def Reach (ks : List κ) (k : κ) : Prop := ∃ a ∈ ks, Relation.ReflTransGen g.Leads a k

/-! ### What a visit adds -/

variable {g} {n : ℕ} {k m : κ} {ks ls new : List κ} {s t u : Visited κ ν}

omit [DecidableEq κ] in
theorem Reach.cons_left (h : g.Reach [k] m) : g.Reach (k :: ks) m := by
  obtain ⟨a, ha, hreach⟩ := h
  obtain rfl := List.mem_singleton.1 ha
  exact ⟨a, List.mem_cons_self, hreach⟩

omit [DecidableEq κ] in
theorem Reach.cons_right (h : g.Reach ks m) : g.Reach (k :: ks) m := by
  obtain ⟨a, ha, hreach⟩ := h
  exact ⟨a, List.mem_cons_of_mem _ ha, hreach⟩

omit [DecidableEq κ] in
/-- What the successors reach is reached. -/
theorem Reach.step {v : ν} (hv : g.node k = some v) (h : g.Reach (g.next v) m) : g.Reach [k] m := by
  obtain ⟨a, ha, hreach⟩ := h
  exact ⟨k, List.mem_singleton_self k, .head ⟨v, hv, ha⟩ hreach⟩

/-- A visit of the keys `ks` leads from `s` to `t`: it adds nodes that were not seen and are reached
    from the keys, and sees all they lead to. -/
structure Grown (g : Graph κ ν) (ks : List κ) (s t : Visited κ ν) (new : List κ) (vs : List ν) :
    Prop where
  seen : t.seen = new.reverse ++ s.seen
  ordered : t.ordered = s.ordered ++ vs
  nodes : new.map g.node = vs.map some
  nodup : new.Nodup
  unseen : ∀ k ∈ new, k ∉ s.seen
  reached : ∀ k ∈ new, g.Reach ks k
  closed : ∀ k ∈ new, ∀ m, g.Leads k m → m ∈ t.seen
  done : ∀ k ∈ ks, k ∈ t.seen

omit [DecidableEq κ] in
theorem Grown.mono {vs : List ν} (h : Grown g ks s t new vs) (hk : k ∈ s.seen) : k ∈ t.seen := by
  rw [h.seen]
  exact List.mem_append_right _ hk

omit [DecidableEq κ] in
theorem Grown.nil (g : Graph κ ν) (s : Visited κ ν) : Grown g [] s s [] [] :=
  ⟨rfl, (List.append_nil _).symm, rfl, .nil, nofun, nofun, nofun, nofun⟩

omit [DecidableEq κ] in
/-- One key after the other. -/
theorem Grown.cons {new' : List κ} {vs vs' : List ν} (h : Grown g [k] s t new vs)
    (h' : Grown g ks t u new' vs') : Grown g (k :: ks) s u (new ++ new') (vs ++ vs') := by
  refine ⟨?_, ?_, ?_, ?_, ?_, ?_, ?_, ?_⟩
  · rw [h'.seen, h.seen, List.reverse_append, List.append_assoc]
  · rw [h'.ordered, h.ordered, List.append_assoc]
  · rw [List.map_append, List.map_append, h.nodes, h'.nodes]
  · refine h.nodup.append h'.nodup fun a ha ha' => h'.unseen a ha' ?_
    rw [h.seen]
    exact List.mem_append_left _ (List.mem_reverse.2 ha)
  · intro a ha
    rcases List.mem_append.1 ha with ha | ha
    · exact h.unseen a ha
    · exact fun hs => h'.unseen a ha (h.mono hs)
  · intro a ha
    rcases List.mem_append.1 ha with ha | ha
    · exact (h.reached a ha).cons_left
    · exact (h'.reached a ha).cons_right
  · intro a ha b hb
    rcases List.mem_append.1 ha with ha | ha
    · exact h'.mono (h.closed a ha b hb)
    · exact h'.closed a ha b hb
  · intro a ha
    rcases List.mem_cons.1 ha with rfl | ha
    · exact h'.mono (h.done a (List.mem_singleton_self a))
    · exact h'.done a ha

omit [DecidableEq κ] in
/-- A node, and then what it leads to. -/
theorem Grown.node {v : ν} {vs : List ν} (hv : g.node k = some v) (hk : k ∉ s.seen)
    (h : Grown g (g.next v) ⟨s.ordered ++ [v], k :: s.seen⟩ t new vs) :
    Grown g [k] s t (k :: new) (v :: vs) := by
  have hself : k ∈ t.seen := h.mono List.mem_cons_self
  refine ⟨?_, ?_, ?_, ?_, ?_, ?_, ?_, ?_⟩
  · rw [h.seen, List.reverse_cons, List.append_assoc]
    rfl
  · rw [h.ordered, List.append_assoc]
    rfl
  · rw [List.map_cons, List.map_cons, hv, h.nodes]
  · exact List.nodup_cons.2 ⟨fun hmem => h.unseen k hmem List.mem_cons_self, h.nodup⟩
  · intro a ha
    rcases List.mem_cons.1 ha with rfl | ha
    · exact hk
    · exact fun hs => h.unseen a ha (List.mem_cons_of_mem _ hs)
  · intro a ha
    rcases List.mem_cons.1 ha with rfl | ha
    · exact ⟨a, List.mem_singleton_self a, .refl⟩
    · exact (h.reached a ha).step hv
  · intro a ha b hb
    rcases List.mem_cons.1 ha with rfl | ha
    · obtain ⟨w, hw, hb⟩ := hb
      obtain rfl := Option.some.inj (hv.symm.trans hw)
      exact h.done b hb
    · exact h.closed a ha b hb
  · intro a ha
    obtain rfl := List.mem_singleton.1 ha
    exact hself

/-- A loop of visits that each add what they should. -/
theorem foldlM_grown (hvisit : ∀ k s t, g.visit n k s = .ok t → ∃ new vs, Grown g [k] s t new vs)
    (h : ks.foldlM (fun s k => g.visit n k s) s = .ok t) : ∃ new vs, Grown g ks s t new vs := by
  induction ks generalizing s with
  | nil =>
    obtain rfl : s = t := Except.ok.inj h
    exact ⟨[], [], .nil g s⟩
  | cons k ks ih =>
    rw [List.foldlM_cons] at h
    obtain ⟨u, hu, hrest⟩ := bind_eq_ok.1 h
    obtain ⟨new, vs, hone⟩ := hvisit k s u hu
    obtain ⟨new', vs', hmany⟩ := ih hrest
    exact ⟨_, _, hone.cons hmany⟩

theorem visit_grown (h : g.visit n k s = .ok t) : ∃ new vs, Grown g [k] s t new vs := by
  induction n generalizing k s t with
  | zero => cases h
  | succ n ih =>
    rw [visit] at h
    split at h
    · next hk =>
      obtain rfl := Except.ok.inj h
      refine ⟨[], [], rfl, (List.append_nil _).symm, rfl, .nil, nofun, nofun, nofun, ?_⟩
      intro a ha
      obtain rfl := List.mem_singleton.1 ha
      exact hk
    · next hk =>
      split at h
      · cases h
      · next v hv =>
        obtain ⟨new, vs, hrest⟩ := foldlM_grown (fun k s t => ih) h
        exact ⟨_, _, hrest.node hv hk⟩

/-! ### Where a visit halts -/

theorem foldlM_missing (hvisit : ∀ k s, g.visit n k s = .error (.missing m) →
      g.Reach [k] m ∧ g.node m = none)
    (h : ks.foldlM (fun s k => g.visit n k s) s = .error (.missing m)) :
    g.Reach ks m ∧ g.node m = none := by
  induction ks generalizing s with
  | nil => cases h
  | cons a ks ih =>
    rw [List.foldlM_cons] at h
    cases hone : g.visit n a s with
    | error e =>
      rw [hone] at h
      obtain rfl : e = .missing m := Except.error.inj h
      exact (hvisit a s hone).imp_left Reach.cons_left
    | ok u =>
      rw [hone] at h
      exact (ih h).imp_left Reach.cons_right

/-- A visit that halts at a key without a node has come to that key. -/
theorem visit_missing (h : g.visit n k s = .error (.missing m)) :
    g.Reach [k] m ∧ g.node m = none := by
  induction n generalizing k s with
  | zero => cases h
  | succ n ih =>
    rw [visit] at h
    split at h
    · cases h
    · split at h
      · next hnone =>
        obtain rfl : k = m := Halt.missing.inj (Except.error.inj h)
        exact ⟨⟨k, List.mem_singleton_self k, .refl⟩, hnone⟩
      · next v hv => exact (foldlM_missing (fun k s => ih) h).imp_left (Reach.step hv)

/-- The nodes that are not seen yet, for a list of all keys that have one. -/
def unseen (keys : List κ) (s : Visited κ ν) : List κ := keys.filter fun k => k ∉ s.seen

theorem unseen_le {keys : List κ} (h : ∀ k ∈ s.seen, k ∈ t.seen) :
    (unseen keys t).length ≤ (unseen keys s).length := by
  refine (List.monotone_filter_right keys fun k hk => ?_).length_le
  simp only [decide_eq_true_eq] at hk ⊢
  exact fun hs => hk (h k hs)

theorem unseen_lt {keys : List κ} (hk : k ∈ keys) (hs : k ∉ s.seen) (ordered : List ν) :
    (unseen keys ⟨ordered, k :: s.seen⟩).length < (unseen keys s).length := by
  have hsub : (unseen keys ⟨ordered, k :: s.seen⟩).Sublist (unseen keys s) :=
    List.monotone_filter_right keys fun a ha => by
      simp only [decide_eq_true_eq, List.mem_cons, not_or] at ha ⊢
      exact ha.2
  refine Nat.lt_of_le_of_ne hsub.length_le fun heq => ?_
  have hmem : k ∈ unseen keys ⟨ordered, k :: s.seen⟩ := by
    rw [hsub.eq_of_length heq]
    simp [unseen, hk, hs]
  simp [unseen] at hmem

theorem foldlM_enough {keys : List κ}
    (hvisit : ∀ k s, (unseen keys s).length < n → g.visit n k s ≠ .error .depth)
    (h : (unseen keys s).length < n) :
    ks.foldlM (fun s k => g.visit n k s) s ≠ .error .depth := by
  induction ks generalizing s with
  | nil => exact nofun
  | cons a ks ih =>
    rw [List.foldlM_cons]
    cases hone : g.visit n a s with
    | error e =>
      intro herr
      obtain rfl : e = .depth := Except.error.inj herr
      exact hvisit a s h hone
    | ok u =>
      obtain ⟨new, vs, hgrown⟩ := visit_grown hone
      exact ih (Nat.lt_of_le_of_lt (unseen_le fun k hk => hgrown.mono hk) h)

/-- As many levels as there are nodes to see suffice. -/
theorem visit_enough {keys : List κ} (hkeys : ∀ k, (g.node k).isSome → k ∈ keys)
    (h : (unseen keys s).length < n) : g.visit n k s ≠ .error .depth := by
  induction n generalizing k s with
  | zero => omega
  | succ n ih =>
    rw [visit]
    split
    · exact nofun
    · next hk =>
      split
      · exact nofun
      · next v hv =>
        have hlt := unseen_lt (hkeys k (by rw [hv]; rfl)) hk (s.ordered ++ [v])
        exact foldlM_enough (fun k s => ih) (by omega)

/-! ### Traversals -/

/-- A traversal that comes to its end returns the nodes that can be reached, each once. -/
theorem traverse_ok {vs : List ν} (h : g.traverse n ks = .ok vs) :
    ∃ new : List κ, new.Nodup ∧ new.map g.node = vs.map some ∧ ∀ k, k ∈ new ↔ g.Reach ks k := by
  obtain ⟨t, ht, rfl⟩ := map_eq_ok.1 h
  obtain ⟨new, vs, hgrown⟩ := foldlM_grown (fun _ _ _ => visit_grown) ht
  have hordered : t.ordered = vs := hgrown.ordered
  have hseen : ∀ k, k ∈ t.seen ↔ k ∈ new := fun k => by
    rw [hgrown.seen, List.append_nil, List.mem_reverse]
  refine ⟨new, hgrown.nodup, by rw [hordered]; exact hgrown.nodes, fun k => ⟨hgrown.reached k, ?_⟩⟩
  rintro ⟨a, ha, hreach⟩
  induction hreach with
  | refl => exact (hseen a).1 (hgrown.done a ha)
  | tail _ hstep ih => exact (hseen _).1 (hgrown.closed _ ih _ hstep)

/-- A traversal that may go deep enough comes to its end exactly if every key it can reach has a
    node; else it halts at one that has none. -/
theorem traverse_total {keys : List κ} (hkeys : ∀ k, (g.node k).isSome → k ∈ keys)
    (hn : keys.length < n) (ks : List κ) :
    (∃ vs, g.traverse n ks = .ok vs ∧ ∀ k, g.Reach ks k → (g.node k).isSome = true) ∨
      ∃ m, g.traverse n ks = .error (.missing m) ∧ g.Reach ks m ∧ g.node m = none := by
  cases h : g.traverse n ks with
  | ok vs =>
    obtain ⟨new, -, hnodes, hmem⟩ := traverse_ok h
    refine .inl ⟨vs, rfl, fun k hk => ?_⟩
    have hin : g.node k ∈ vs.map some := hnodes ▸ List.mem_map_of_mem ((hmem k).2 hk)
    obtain ⟨v, -, hv⟩ := List.mem_map.1 hin
    rw [← hv]
    rfl
  | error e =>
    have herr : ks.foldlM (fun s k => g.visit n k s) ⟨[], []⟩ = .error e := by
      rw [traverse] at h
      cases hloop : ks.foldlM (fun s k => g.visit n k s) (⟨[], []⟩ : Visited κ ν) with
      | error e' =>
        rw [hloop] at h
        exact congrArg _ (Except.error.inj h)
      | ok t =>
        rw [hloop] at h
        cases h
    cases e with
    | missing m => exact .inr ⟨m, rfl, foldlM_missing (fun _ _ => visit_missing) herr⟩
    | depth =>
      have hle : (unseen keys (⟨[], []⟩ : Visited κ ν)).length ≤ keys.length :=
        List.length_filter_le ..
      exact absurd herr (foldlM_enough (fun k s => visit_enough hkeys) (by omega))

omit [DecidableEq κ] in
/-- The order of the keys, and how often they come, do not count for what is reached. -/
theorem reach_congr (h : ∀ a, a ∈ ks ↔ a ∈ ls) (k : κ) : g.Reach ks k ↔ g.Reach ls k :=
  exists_congr fun a => and_congr_left' (h a)

omit [DecidableEq κ] in
theorem reach_append (k : κ) : g.Reach (ks ++ ls) k ↔ g.Reach ks k ∨ g.Reach ls k := by
  constructor
  · rintro ⟨a, ha, hreach⟩
    rcases List.mem_append.1 ha with ha | ha
    · exact .inl ⟨a, ha, hreach⟩
    · exact .inr ⟨a, ha, hreach⟩
  · rintro (⟨a, ha, hreach⟩ | ⟨a, ha, hreach⟩)
    · exact ⟨a, List.mem_append_left _ ha, hreach⟩
    · exact ⟨a, List.mem_append_right _ ha, hreach⟩

end Graph
end LocalVoice.Lib
