import LocalVoice.Lib.InPlace
import LocalVoice.LeafComposition.Registry
import LocalVoice.ProfileLoader.Plain

/-! `resolve_env`: the environments of the selected leaves, merged, and expanded in two passes over the
    map, in place. What a pass leaves of the references between the keys is the relation `Left` of
    those there were (`refers_pass`), so two passes settle a map of plain values exactly if `Left` of
    `Left` is empty: a chain of four references may need a third pass. -/

namespace LocalVoice.LeafComposition
open LocalVoice.Lib LocalVoice.ProfileLoader

/-! ### The passes -/

/-- `for k, v in list(expanded.items())`: each value is expanded against the map as it is by then, and
    is assigned if it changed. -/
def expand_pass : List (String × String) → Dict String String × Bool → Dict String String × Bool
  | [], s => s
  | (k, v) :: rest, (expanded, changed) =>
    let new_v := Template.safe_substitute v expanded.get?
    if new_v ≠ v then expand_pass rest (expanded.set k new_v, true)
    else expand_pass rest (expanded, changed)

/-- The passes, of which the last is the first that changes nothing. -/
def expand_passes : ℕ → Dict String String → Dict String String
  | 0, expanded => expanded
  | n + 1, expanded =>
    let (expanded, changed) := expand_pass expanded.items (expanded, false)
    if changed then expand_passes n expanded else expanded

namespace Registry
variable (r : Registry)

/-- `merged`: the environments of the leaves one after the other, the overrides over them. -/
def merge_env (selected : List String) (overrides : Option (Dict String String)) :
    Except CompositionError (Dict String String) :=
  (r.expand selected).map fun leaves =>
    (leaves.foldl (fun merged leaf => merged.update leaf.runtime_env.items)
      (Dict.empty : Dict String String)).update (overrides.elim [] Dict.items)

/-- `resolve_env`. -/
def resolve_env (selected : List String) (overrides : Option (Dict String String)) :
    Except CompositionError (Dict String String) :=
  (r.merge_env selected overrides).map (expand_passes 2)

end Registry

/-! ### References between keys -/

/-- The value of one key refers to another key. -/
def Refers (m : Dict String String) (i e : String) : Prop :=
  ∃ v, m.get? i = some v ∧ e ∈ Template.refs v ∧ e ∈ m.keys

def Acyclic (m : Dict String String) : Prop := ∀ k, ¬ Relation.TransGen (Refers m) k k

/-- No value refers to a key, and another pass changes nothing. -/
structure Settled (env : Dict String String) : Prop where
  clean : ∀ i e, ¬ Refers env i e
  again : expand_pass env.items (env, false) = (env, false)

/-- What a pass leaves of the references `R` between the keys of a map. -/
def LeftOver (m : Dict String String) (R : String → String → Prop) : String → String → Prop :=
  Left (Dict.Before m.items) R

/-! ### One pass -/

/-- A pass, whether it changed something or not. -/
def pass (m : Dict String String) : Dict String String := Dict.fill Template.safe_substitute m.items m

section
variable {m d : Dict String String} {l : List (String × String)} {i e k v : String}

/-- The pass without its test for a change: what is not assigned is there already. -/
theorem expand_pass_eq (changed : Bool) (hnodup : (l.map Prod.fst).Nodup)
    (hl : ∀ p ∈ l, d.get? p.1 = some p.2) :
    (expand_pass l (d, changed)).1 = Dict.fill Template.safe_substitute l d ∧
      ((expand_pass l (d, changed)).2 = false →
        changed = false ∧ Dict.fill Template.safe_substitute l d = d) := by
  induction l generalizing d changed with
  | nil => exact ⟨rfl, fun h => ⟨h, rfl⟩⟩
  | cons p rest ih =>
    obtain ⟨k, v⟩ := p
    rw [List.map_cons, List.nodup_cons] at hnodup
    have hrest : ∀ w, ∀ p ∈ rest, (d.set k w).get? p.1 = some p.2 := fun w p hp => by
      have hmem : p.1 ∈ rest.map Prod.fst := List.mem_map_of_mem hp
      have hne : p.1 ≠ k := fun heq => hnodup.1 (heq ▸ hmem)
      rw [Dict.get?_set, if_neg hne]
      exact hl p (List.mem_cons_of_mem _ hp)
    rw [expand_pass, Dict.fill]
    split
    · next hne =>
      have hstep := ih true hnodup.2 (hrest (Template.safe_substitute v d.get?))
      exact ⟨hstep.1, fun h => absurd (hstep.2 h).1 (by decide)⟩
    · next heq =>
      rw [ne_eq, not_not] at heq
      rw [heq, Dict.set_self (hl (k, v) List.mem_cons_self)]
      exact ih changed hnodup.2 fun p hp => hl p (List.mem_cons_of_mem _ hp)

theorem pass_eq (m : Dict String String) (changed : Bool) :
    (expand_pass m.items (m, changed)).1 = pass m :=
  (expand_pass_eq changed m.nodup fun _ hp => Dict.mem_items.1 hp).1

/-- Two passes, whether the first changes something or not. -/
theorem expand_passes_eq (m : Dict String String) : expand_passes 2 m = pass (pass m) := by
  have hfirst := expand_pass_eq false m.nodup fun _ hp => Dict.mem_items.1 hp
  have hsame : ∀ d, (if (expand_pass d.items (d, false)).2 = true then pass d else pass d) = pass d :=
    fun d => by split <;> rfl
  simp only [expand_passes, pass_eq, hsame]
  split
  · rfl
  · next hunchanged =>
    have hself : pass m = m := (hfirst.2 (Bool.eq_false_iff.2 hunchanged)).2
    rw [hself, hself]

theorem keys_pass : (pass m).keys = m.keys := Dict.keys_fill fun _ hk => hk

theorem before_pass {x : String} : Dict.Before (pass m).items x k ↔ Dict.Before m.items x k := by
  have hkeys : (pass m).items.map Prod.fst = m.items.map Prod.fst := keys_pass
  rw [Dict.Before, Dict.Before, hkeys]

theorem get?_pass (h : m.get? k = some v) : (pass m).get? k =
    some (Template.safe_substitute v fun x =>
      if Dict.Before m.items x k then (pass m).get? x else m.get? x) :=
  Dict.get?_fill m.nodup h

/-- The values of a pass come from values. -/
theorem get?_pass_inv (h : (pass m).get? k = some v) : ∃ w, m.get? k = some w ∧
    v = Template.safe_substitute w fun x =>
      if Dict.Before m.items x k then (pass m).get? x else m.get? x := by
  have hk : k ∈ (pass m).keys := Dict.mem_keys.2 ⟨v, h⟩
  rw [keys_pass] at hk
  obtain ⟨w, hw⟩ := Dict.mem_keys.1 hk
  rw [get?_pass hw] at h
  exact ⟨w, hw, (Option.some.inj h).symm⟩

theorem plain_pass (hm : PlainEnv m.get?) : PlainEnv (pass m).get? := by
  intro k
  induction k using (Dict.before_wf m.items).induction with
  | h k ih =>
    intro v hv
    obtain ⟨w, hw, rfl⟩ := get?_pass_inv hv
    refine plain_safe_substitute (hm k w hw) fun x u hx => ?_
    split at hx
    · next hbefore => exact ih x hbefore u hx
    · exact hm x u hx

/-- A pass leaves of the references what `Left` says. -/
theorem refers_pass (hm : PlainEnv m.get?) : Refers (pass m) i e ↔ LeftOver m (Refers m) i e := by
  refine left_iff (Dict.before_wf m.items) (fun i e => ?_) i e
  have hlook : ∀ k, PlainEnv fun x =>
      if Dict.Before m.items x k then (pass m).get? x else m.get? x := fun k x u hx => by
    dsimp only at hx
    split at hx
    · exact plain_pass hm x u hx
    · exact hm x u hx
  constructor
  · rintro ⟨v, hv, he, hkey⟩
    obtain ⟨w, hw, rfl⟩ := get?_pass_inv hv
    rw [keys_pass] at hkey
    obtain ⟨j, hj, ⟨hnone, rfl⟩ | ⟨u, hu, he⟩⟩ :=
      (refs_safe_substitute (hm i w hw) (hlook i)).1 he
    · exfalso
      split at hnone
      · exact Dict.get?_eq_none.1 hnone (keys_pass.symm ▸ hkey)
      · exact Dict.get?_eq_none.1 hnone hkey
    · split at hu
      · next hbefore =>
        have hmem : j ∈ (pass m).keys := Dict.mem_keys.2 ⟨u, hu⟩
        rw [keys_pass] at hmem
        exact ⟨j, ⟨w, hw, hj, hmem⟩, .inl ⟨hbefore, u, hu, he, keys_pass.symm ▸ hkey⟩⟩
      · next hbefore =>
        exact ⟨j, ⟨w, hw, hj, Dict.mem_keys.2 ⟨u, hu⟩⟩, .inr ⟨hbefore, u, hu, he, hkey⟩⟩
  · rintro ⟨j, ⟨w, hw, hj, -⟩, ⟨hbefore, u, hu, he, hkey⟩ | ⟨hbefore, u, hu, he, hkey⟩⟩
    · refine ⟨_, get?_pass hw, (refs_safe_substitute (hm i w hw) (hlook i)).2
        ⟨j, hj, .inr ⟨u, ?_, he⟩⟩, hkey⟩
      rw [if_pos hbefore]
      exact hu
    · refine ⟨_, get?_pass hw, (refs_safe_substitute (hm i w hw) (hlook i)).2
        ⟨j, hj, .inr ⟨u, ?_, he⟩⟩, keys_pass.symm ▸ hkey⟩
      rw [if_neg hbefore]
      exact hu

/-- A pass over values that refer to no key changes nothing. -/
theorem settled_of_clean (hm : PlainEnv m.get?) (hclean : ∀ i e, ¬ Refers m i e) : Settled m := by
  refine ⟨hclean, ?_⟩
  have hself : ∀ p ∈ m.items, Template.safe_substitute p.2 m.get? = p.2 := fun p hp => by
    have hget := Dict.mem_items.1 hp
    refine safe_substitute_self (hm _ _ hget) fun x hx => Dict.get?_eq_none.2 fun hkey => ?_
    exact hclean p.1 x ⟨p.2, hget, hx, hkey⟩
  have hrun : ∀ l : List (String × String), (∀ p ∈ l, Template.safe_substitute p.2 m.get? = p.2) →
      expand_pass l (m, false) = (m, false) := by
    intro l hl
    induction l with
    | nil => rfl
    | cons p rest ih =>
      have hp := hl p List.mem_cons_self
      rw [expand_pass, if_neg (not_not.2 hp)]
      exact ih fun q hq => hl q (List.mem_cons_of_mem _ hq)
  exact hrun m.items hself

/-- What two passes leave of the references. -/
theorem refers_passes (hm : PlainEnv m.get?) :
    Refers (expand_passes 2 m) i e ↔ LeftOver m (LeftOver m (Refers m)) i e := by
  have hrefers : Refers (pass m) = LeftOver m (Refers m) :=
    funext fun _ => funext fun _ => propext (refers_pass hm)
  have hbefore : Dict.Before (pass m).items = Dict.Before m.items :=
    funext fun _ => funext fun _ => propext before_pass
  rw [expand_passes_eq, refers_pass (plain_pass hm), hrefers, LeftOver, hbefore]
  exact Iff.rfl

theorem plain_passes (hm : PlainEnv m.get?) : PlainEnv (expand_passes 2 m).get? := by
  rw [expand_passes_eq]
  exact plain_pass (plain_pass hm)

/-- Two passes settle the map if what is left of the references is empty, and only then. -/
theorem settled_iff (hm : PlainEnv m.get?) : Settled (expand_passes 2 m) ↔
    ∀ i e, ¬ LeftOver m (LeftOver m (Refers m)) i e := by
  constructor
  · exact fun h i e hleft => h.clean i e ((refers_passes hm).2 hleft)
  · exact fun h => settled_of_clean (plain_passes hm) fun i e hr => h i e ((refers_passes hm).1 hr)

end

/-! ### A chain that is too long -/

namespace Sample

/-- Each key refers to the next one. -/
def chain : Dict String String :=
  ((((Dict.empty.set "A" "${B}").set "B" "${C}").set "C" "${D}").set "D" "${E}").set "E" "x"

/-- A leaf with this environment. -/
def chained : Registry :=
  { registry with leaves := Dict.empty.set "asr" { asr with requires := [], runtime_env := chain } }

theorem plain_ref (c : Char) (hc : is_id_start c = true) :
    Plain [.ref [c] ['$', '{', c, '}']] := by
  have hname : Identifier [c] := ⟨⟨c, [], rfl, hc⟩, fun d hd => by
    obtain rfl := List.mem_singleton.1 hd
    rw [is_id_rest, hc, Bool.true_or]⟩
  exact .braced hname .nil

theorem chain_plain : PlainEnv chain.get? := by
  have hplain : ∀ p ∈ chain.items, Template.Plain p.2 := by
    have hitems : chain.items = [("A", "${B}"), ("B", "${C}"), ("C", "${D}"), ("D", "${E}"),
      ("E", "x")] := rfl
    rw [hitems]
    simp only [List.forall_mem_cons]
    exact ⟨plain_ref 'B' rfl, plain_ref 'C' rfl, plain_ref 'D' rfl, plain_ref 'E' rfl,
      .text (by decide) .nil, nofun⟩
  exact fun x w h => hplain (x, w) (Dict.mem_items.2 h)

theorem chained_merge : chained.merge_env ["asr"] none = .ok chain := rfl

/-- Every reference is to a later key, so there is no way back. -/
theorem chain_acyclic : Acyclic chain := by
  have hlater : ∀ p ∈ chain.items, ∀ e ∈ Template.refs p.2, Dict.Before chain.items p.1 e := by
    decide +kernel
  have hstep : ∀ {i e}, Refers chain i e → Dict.Before chain.items i e := by
    rintro i e ⟨v, hv, he, -⟩
    exact hlater (i, v) (Dict.mem_items.2 hv) e he
  have hreach : ∀ {i e}, Relation.TransGen (Refers chain) i e → Dict.Before chain.items i e := by
    intro i e h
    induction h with
    | single h => exact hstep h
    | tail _ h ih => exact Nat.lt_trans ih (hstep h)
  exact fun k h => Nat.lt_irrefl _ (hreach h)

end Sample

/-- A map of plain values is settled by two passes if nothing is left after them of the references
    between its keys, and only then. -/
theorem resolve_env_settles (r : Registry) (selected : List String)
    (overrides : Option (Dict String String)) (merged : Dict String String)
    (hmerged : r.merge_env selected overrides = .ok merged) (hplain : PlainEnv merged.get?) :
    ∃ env, r.resolve_env selected overrides = .ok env ∧
      (Settled env ↔ ∀ i e, ¬ LeftOver merged (LeftOver merged (Refers merged)) i e) := by
  refine ⟨expand_passes 2 merged, ?_, settled_iff hplain⟩
  rw [Registry.resolve_env, hmerged]
  rfl

theorem chain_settles : ∃ env, Sample.chained.resolve_env ["asr"] none = .ok env ∧ (Settled env ↔
    ∀ i e, ¬ LeftOver Sample.chain (LeftOver Sample.chain (Refers Sample.chain)) i e) :=
  resolve_env_settles Sample.chained ["asr"] none Sample.chain Sample.chained_merge Sample.chain_plain

/-- Without a cycle two passes may leave a reference. -/
theorem chain_unsettled : ¬ ∀ (r : Registry) (selected : List String)
    (overrides : Option (Dict String String)) (merged env : Dict String String),
    r.merge_env selected overrides = .ok merged → Acyclic merged →
      r.resolve_env selected overrides = .ok env → Settled env := by
  intro h
  have hsettled := h Sample.chained ["asr"] none Sample.chain (expand_passes 2 Sample.chain)
    Sample.chained_merge Sample.chain_acyclic (by rw [Registry.resolve_env, Sample.chained_merge]; rfl)
  exact hsettled.clean "A" "E" ⟨"${E}", by decide +kernel, by decide +kernel, by decide +kernel⟩

end LocalVoice.LeafComposition
