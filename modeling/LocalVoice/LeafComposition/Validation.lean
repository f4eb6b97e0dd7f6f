import Mathlib.Algebra.BigOperators.Group.List.Basic
import Mathlib.Algebra.Ring.Int.Defs
import LocalVoice.Lib.PyText
import LocalVoice.LeafComposition.Registry

/-! `validate_composition`: the checks on the selected leaves, one loop each, and the memory of all the
    leaves they reach. It accepts exactly the selections that meet the conditions (`Valid`), none of
    which depends on the order of the selection. -/

namespace LocalVoice.LeafComposition
open LocalVoice.Lib

/-! ### The validation -/

/-- `_backend_family`. -/
def backend_family (leaf : Leaf) : Option String :=
  if PyText.lower ((leaf.runtime_env.get? "LANGUAGE_MODE").getD "") = "rk" then some "rk"
  else if '.' ∈ leaf.backend.toList then
    some (String.ofList (leaf.backend.toList.takeWhile (· ≠ '.')))
  else none

/-- The exclusive resource a leaf claims. -/
def exclusive_of (leaf : Leaf) : Option String :=
  ((leaf.resources.get? "exclusive").filter Json.truthy).map Json.toStr

/-- A leaf with its precision on a device. -/
structure ResolvedLeaf where
  leaf : Leaf
  precision : Option String

structure CompositionPlan where
  device : String
  leaf_ids : List String
  resolved : List ResolvedLeaf
  peak_unified_mb : ℤ
  headroom_mb : ℤ

/-- All families that were found agree. -/
def check_families (families : Dict String String) : Except CompositionError Unit :=
  if 1 < families.items.length then .error (.incompatible_families families.items) else .ok ()

/-- No resource has two holders unless the admission is serial. -/
def check_exclusive (admission : Option String) (exclusive : Dict String (List String)) :
    Except CompositionError Unit :=
  match exclusive.items.find? fun item => 1 < item.2.length && admission != some "serial" with
  | some (resource, holders) => .error (.exclusive_conflict resource holders)
  | none => .ok ()

def check_memory (delta peak headroom : ℤ) (leaves : List String) : Except CompositionError Unit :=
  if headroom < peak then .error (.memory delta peak headroom leaves) else .ok ()

namespace Registry
variable (r : Registry)

/-- `peak_unified_mb` of a leaf; `none` is an `OverflowError`. -/
def peak_unified_mb (leaf : Leaf) : Option ℤ :=
  match leaf.resources.get? "peak_unified_mb" with
  | none | some .null => some 0
  | some (.bool b) => some (if b then 1 else 0)
  | some (.int n) => some n
  | some (.str s) => some ((PyText.int s).getD 0)
  | some (.other printed _) => (r.int_other printed).map (·.getD 0)

def device_class (device : String) : String :=
  match (r.devices.get? device).filter (·.device_class ≠ "") with
  | some spec => spec.device_class
  | none => if PyText.startswith device "orin" then "jetson" else device

def resolve_precision (leaf : Leaf) (device : String) : Option String :=
  leaf.precision.or
    ((r.default_precision.get? leaf.model).bind fun precision => precision.get? (r.device_class device))

/-- The loop that gives each capability to one leaf. -/
def pair_capabilities : List String → Dict String String →
    Except CompositionError (Dict String String)
  | [], by_capability => .ok by_capability
  | lid :: rest, by_capability => do
    let leaf ← r.get_leaf lid
    match by_capability.get? leaf.capability with
    | some existing => .error (.illegal_pairing existing lid leaf.capability)
    | none => pair_capabilities rest (by_capability.set leaf.capability lid)

/-- The loop that finds a leaf for each backend family. -/
def find_families : List String → Dict String String → Except CompositionError (Dict String String)
  | [], families => .ok families
  | lid :: rest, families => do
    let leaf ← r.get_leaf lid
    match backend_family leaf with
    | none => find_families rest families
    | some fam =>
      find_families rest (if (families.get? fam).isSome then families else families.set fam lid)

/-- The loop that gathers the holders of each exclusive resource. -/
def find_exclusive : List String → Dict String (List String) →
    Except CompositionError (Dict String (List String))
  | [], exclusive => .ok exclusive
  | lid :: rest, exclusive => do
    let leaf ← r.get_leaf lid
    match exclusive_of leaf with
    | none => find_exclusive rest exclusive
    | some res => find_exclusive rest (exclusive.set res ((exclusive.get? res).getD [] ++ [lid]))

/-- `sum(leaf.peak_unified_mb for leaf in expanded)`. -/
def sum_peaks : List Leaf → Option ℤ
  | [] => some 0
  | leaf :: rest => (r.peak_unified_mb leaf).bind fun peak => (sum_peaks rest).map (peak + ·)

/-- `validate_composition`. -/
def validate_composition (device : String) (selected : List String) (admission : Option String) :
    Except CompositionError CompositionPlan := do
  let dev ← (r.devices.get? device).elim (.error (.unknown_device device)) .ok
  let _ ← r.pair_capabilities selected .empty
  let families ← r.find_families selected .empty
  check_families families
  let exclusive ← r.find_exclusive selected .empty
  check_exclusive admission exclusive
  let expanded ← r.expand selected
  let delta ← (r.sum_peaks expanded).elim (.error .overflow) .ok
  let headroom := r.headroom dev.unified_mb
  check_memory delta (dev.base_reservation_mb + delta) headroom (expanded.map Leaf.id)
  .ok ⟨device, selected, expanded.map fun leaf => ⟨leaf, r.resolve_precision leaf device⟩,
    dev.base_reservation_mb + delta, headroom⟩

end Registry

/-! ### What is to be met -/

section
variable (r : Registry) (selected : List String)

/-- What the selected leaves have of one kind, a leaf that is selected twice twice. -/
def selection (f : Leaf → Option String) : List String :=
  selected.filterMap fun id => (r.leaves.get? id).bind f

/-- A selection is valid on a device, with the given memory at its peak. -/
structure Valid (device : String) (admission : Option String) (peak : ℤ) : Prop where
  known : ∀ id, r.Reachable selected id → (r.leaves.get? id).isSome = true
  capabilities : (selection r selected fun leaf => some leaf.capability).Nodup
  families : ∀ a ∈ selection r selected backend_family, ∀ b ∈ selection r selected backend_family,
    a = b
  exclusive : (selection r selected exclusive_of).Nodup ∨ admission = some "serial"
  «memory» : ∃ dev leaves ids, r.devices.get? device = some dev ∧ Expansion r selected leaves ids ∧
    (∀ leaf ∈ leaves, (r.peak_unified_mb leaf).isSome = true) ∧
      peak = dev.base_reservation_mb + (leaves.map fun leaf => (r.peak_unified_mb leaf).getD 0).sum ∧
        peak ≤ r.headroom dev.unified_mb

end

/-! ### The loops -/

section
variable {r : Registry} {ids : List String} {id : String} {leaf : Leaf} {f : Leaf → Option String}

theorem get_leaf_some (h : r.leaves.get? id = some leaf) : r.get_leaf id = .ok leaf := by
  rw [Registry.get_leaf, h]

theorem get_leaf_none (h : r.leaves.get? id = none) : r.get_leaf id = .error (.no_leaf id) := by
  rw [Registry.get_leaf, h]

theorem selection_cons (h : r.leaves.get? id = some leaf) :
    selection r (id :: ids) f = (f leaf).toList ++ selection r ids f := by
  rw [selection, List.filterMap_cons, h, Option.bind_some]
  cases f leaf <;> rfl

/-- A capability comes once, and is not given yet. -/
theorem pair_capabilities_ok : ∀ {by_capability : Dict String String},
    (∃ d, r.pair_capabilities ids by_capability = .ok d) ↔
      (∀ id ∈ ids, (r.leaves.get? id).isSome = true) ∧
        (selection r ids fun leaf => some leaf.capability).Nodup ∧
          ∀ c ∈ selection r ids fun leaf => some leaf.capability, by_capability.get? c = none := by
  induction ids with
  | nil => exact fun {d} => ⟨fun _ => ⟨nofun, .nil, nofun⟩, fun _ => ⟨d, rfl⟩⟩
  | cons id rest ih =>
    intro by_capability
    cases hget : r.leaves.get? id with
    | none =>
      constructor
      · rintro ⟨d, hd⟩
        rw [Registry.pair_capabilities, get_leaf_none hget] at hd
        cases hd
      · rintro ⟨hknown, -⟩
        have hsome := hknown id List.mem_cons_self
        rw [hget] at hsome
        cases hsome
    | some leaf =>
      have hrun : r.pair_capabilities (id :: rest) by_capability =
          match by_capability.get? leaf.capability with
          | some existing => .error (.illegal_pairing existing id leaf.capability)
          | none => r.pair_capabilities rest (by_capability.set leaf.capability id) := by
        rw [Registry.pair_capabilities, get_leaf_some hget]
        rfl
      rw [hrun, selection_cons hget, Option.toList_some, List.singleton_append, List.nodup_cons,
        List.forall_mem_cons, List.forall_mem_cons, hget]
      cases hfree : by_capability.get? leaf.capability with
      | some existing => simp
      | none =>
        dsimp only
        rw [ih]
        simp only [Dict.get?_set]
        constructor
        · rintro ⟨hknown, hnodup, hunused⟩
          refine ⟨⟨rfl, hknown⟩, ⟨fun hmem => ?_, hnodup⟩, trivial, fun c hc => ?_⟩
          · have hsame := hunused _ hmem
            rw [if_pos rfl] at hsame
            cases hsame
          · have hother := hunused c hc
            split at hother
            · cases hother
            · exact hother
        · rintro ⟨⟨-, hknown⟩, ⟨hnew, hnodup⟩, -, hunused⟩
          refine ⟨hknown, hnodup, fun c hc => ?_⟩
          have hne : c ≠ leaf.capability := fun heq => hnew (heq ▸ hc)
          rw [if_neg hne]
          exact hunused c hc

/-- The families that are found are those of the selected leaves. -/
theorem families_ok (hknown : ∀ id ∈ ids, (r.leaves.get? id).isSome = true) :
    ∀ families : Dict String String, ∃ d, r.find_families ids families = .ok d ∧
      ∀ f, f ∈ d.keys ↔ f ∈ families.keys ∨ f ∈ selection r ids backend_family := by
  induction ids with
  | nil => exact fun d => ⟨d, rfl, fun f => by simp [selection]⟩
  | cons id rest ih =>
    intro families
    obtain ⟨leaf, hget⟩ := Option.isSome_iff_exists.1 (hknown id List.mem_cons_self)
    have hrest := ih fun a ha => hknown a (List.mem_cons_of_mem _ ha)
    rw [Registry.find_families, get_leaf_some hget, selection_cons hget]
    cases hfam : backend_family leaf with
    | none =>
      obtain ⟨d, hd, hkeys⟩ := hrest families
      exact ⟨d, by rw [← hd]; simp [bind, Except.bind, hfam], hkeys⟩
    | some fam =>
      obtain ⟨d, hd, hkeys⟩ := hrest
        (if (families.get? fam).isSome then families else families.set fam id)
      refine ⟨d, by rw [← hd]; simp [bind, Except.bind, hfam], fun f => ?_⟩
      have hadd : f ∈ (if (families.get? fam).isSome then families else families.set fam id).keys ↔
          f ∈ families.keys ∨ f = fam := by
        split
        · next hthere =>
          have hmem := (Dict.get?_isSome families fam).1 hthere
          refine ⟨.inl, ?_⟩
          rintro (h | rfl)
          · exact h
          · exact hmem
        · exact (Dict.mem_keys_setItems fam f id families.items).trans or_comm
      rw [hkeys, hadd, Option.toList_some, List.singleton_append, List.mem_cons, or_assoc]

/-- Two families at most one of which is found are the same. -/
theorem one_family {d : Dict String String} {fams : List String} (hkeys : ∀ f, f ∈ d.keys ↔ f ∈ fams) :
    ¬ 1 < d.items.length ↔ ∀ a ∈ fams, ∀ b ∈ fams, a = b := by
  have hlen : d.items.length = d.keys.length := (List.length_map _).symm
  have hnodup : d.keys.Nodup := d.nodup
  rw [hlen]
  constructor
  · intro hle a ha b hb
    have hamem := (hkeys a).2 ha
    have hbmem := (hkeys b).2 hb
    match hd : d.keys with
    | [] =>
      rw [hd] at hamem
      cases hamem
    | [x] =>
      rw [hd, List.mem_singleton] at hamem hbmem
      rw [hamem, hbmem]
    | x :: y :: rest =>
      rw [hd] at hle
      simp at hle
  · intro hsame hlt
    match hd : d.keys with
    | [] => simp [hd] at hlt
    | [x] => simp [hd] at hlt
    | x :: y :: rest =>
      have heq := hsame x ((hkeys x).1 (by simp [hd])) y ((hkeys y).1 (by simp [hd]))
      rw [hd, heq] at hnodup
      simp at hnodup

/-- The holders of a resource are as many as the selected leaves that claim it. -/
theorem exclusive_ok (hknown : ∀ id ∈ ids, (r.leaves.get? id).isSome = true) :
    ∀ exclusive : Dict String (List String), ∃ d, r.find_exclusive ids exclusive = .ok d ∧
      ∀ k, ((d.get? k).getD []).length =
        ((exclusive.get? k).getD []).length + (selection r ids exclusive_of).count k := by
  induction ids with
  | nil => exact fun d => ⟨d, rfl, fun k => rfl⟩
  | cons id rest ih =>
    intro exclusive
    obtain ⟨leaf, hget⟩ := Option.isSome_iff_exists.1 (hknown id List.mem_cons_self)
    have hrest := ih fun a ha => hknown a (List.mem_cons_of_mem _ ha)
    rw [Registry.find_exclusive, get_leaf_some hget, selection_cons hget]
    cases hres : exclusive_of leaf with
    | none =>
      obtain ⟨d, hd, hcount⟩ := hrest exclusive
      exact ⟨d, by rw [← hd]; simp [bind, Except.bind, hres], hcount⟩
    | some res =>
      obtain ⟨d, hd, hcount⟩ := hrest
        (exclusive.set res ((exclusive.get? res).getD [] ++ [id]))
      refine ⟨d, by rw [← hd]; simp [bind, Except.bind, hres], fun k => ?_⟩
      rw [hcount, Dict.get?_set, Option.toList_some, List.singleton_append, List.count_cons]
      by_cases hk : k = res
      · subst hk
        simp
        omega
      · simp [hk, Ne.symm hk]

/-- No resource has two holders, or they are admitted one after the other. -/
theorem no_conflict {d : Dict String (List String)} {claims : List String} {admission : Option String}
    (hcount : ∀ k, ((d.get? k).getD []).length = claims.count k) :
    (d.items.find? fun item => 1 < item.2.length && admission != some "serial") = none ↔
      claims.Nodup ∨ admission = some "serial" := by
  rw [List.find?_eq_none]
  by_cases hserial : admission = some "serial"
  · simp [hserial]
  · simp only [hserial, or_false, Bool.and_eq_true, decide_eq_true_eq, bne_iff_ne, ne_eq,
      not_false_iff, and_true, List.nodup_iff_count_le_one]
    constructor
    · intro h k
      rw [← hcount]
      cases hk : d.get? k with
      | none => exact Nat.zero_le 1
      | some holders => exact Nat.le_of_not_lt (h (k, holders) (Dict.mem_items.2 hk))
    · rintro h ⟨k, holders⟩ hmem
      have hle := h k
      rw [← hcount, Dict.mem_items.1 hmem] at hle
      exact Nat.not_lt.2 hle

theorem sum_peaks_eq {leaves : List Leaf} {d : ℤ} : r.sum_peaks leaves = some d ↔
    (∀ leaf ∈ leaves, (r.peak_unified_mb leaf).isSome = true) ∧
      d = (leaves.map fun leaf => (r.peak_unified_mb leaf).getD 0).sum := by
  induction leaves generalizing d with
  | nil => exact ⟨fun h => ⟨nofun, (Option.some.inj h).symm⟩, fun h => congrArg some h.2.symm⟩
  | cons leaf rest ih =>
    rw [Registry.sum_peaks, List.forall_mem_cons, List.map_cons, List.sum_cons]
    cases hpeak : r.peak_unified_mb leaf with
    | none => simp
    | some peak =>
      simp only [Option.bind_some, Option.map_eq_some_iff, Option.isSome_some, Option.getD_some, ih]
      constructor
      · rintro ⟨e, ⟨hall, rfl⟩, rfl⟩
        exact ⟨⟨trivial, hall⟩, rfl⟩
      · rintro ⟨⟨-, hall⟩, rfl⟩
        exact ⟨_, ⟨hall, rfl⟩, rfl⟩

end

/-! ### Acceptance -/

section
variable {r : Registry} {selected selected' : List String} {device : String}
  {admission : Option String} {peak : ℤ}

theorem check_families_ok {families : Dict String String} :
    check_families families = .ok () ↔ ¬ 1 < families.items.length := by
  rw [check_families]
  split
  · next hlt => exact ⟨nofun, fun hle => absurd hlt hle⟩
  · next hle => exact ⟨fun _ => hle, fun _ => rfl⟩

theorem check_exclusive_ok {exclusive : Dict String (List String)} :
    check_exclusive admission exclusive = .ok () ↔
      (exclusive.items.find? fun item => 1 < item.2.length && admission != some "serial") = none := by
  rw [check_exclusive]
  split
  · next h => rw [h]; exact ⟨nofun, nofun⟩
  · next h => rw [h]; exact ⟨fun _ => rfl, fun _ => rfl⟩

theorem check_memory_ok {delta headroom : ℤ} {ids : List String} :
    check_memory delta peak headroom ids = .ok () ↔ peak ≤ headroom := by
  rw [check_memory]
  split
  · next hlt => exact ⟨nofun, fun hle => absurd hle (Int.not_le.2 hlt)⟩
  · next hle => exact ⟨fun _ => Int.not_lt.1 hle, fun _ => rfl⟩

theorem reach_selected {id : String} (h : id ∈ selected) : r.Reachable selected id := ⟨id, h, .refl⟩

/-- Two expansions of one selection have the same leaves. -/
theorem Expansion.perm {leaves leaves' : List Leaf} {ids ids' : List String}
    (h : Expansion r selected leaves ids) (h' : Expansion r selected leaves' ids') :
    leaves.Perm leaves' := by
  have hids : ids.Perm ids' := (List.perm_ext_iff_of_nodup h.nodup h'.nodup).2 fun id =>
    (h.reachable id).trans (h'.reachable id).symm
  have hleaves := hids.map r.leaves.get?
  rw [h.leaves, h'.leaves] at hleaves
  exact (List.map_perm_map_iff fun _ _ => Option.some.inj).1 hleaves

/-- What is accepted is valid, and has the peak that is reported. -/
theorem valid_of_ok {plan : CompositionPlan}
    (h : r.validate_composition device selected admission = .ok plan) :
    Valid r selected device admission plan.peak_unified_mb := by
  unfold Registry.validate_composition at h
  simp only [bind, bind_eq_ok] at h
  obtain ⟨dev, hdev, d, hpair, families, hfind, ⟨⟩, hagree, exclusive, hholders, ⟨⟩, hfree, leaves,
    hexpand, delta, hdelta, ⟨⟩, hfits, hplan⟩ := h
  obtain rfl := Except.ok.inj hplan
  obtain ⟨hknown, hnodup, -⟩ := pair_capabilities_ok.1 ⟨d, hpair⟩
  refine ⟨?_, hnodup, ?_, ?_, ?_⟩
  · rcases expand_total r selected with ⟨_, _, _, _, hall⟩ | ⟨id, herror, -⟩
    · exact hall
    · rw [hexpand] at herror
      cases herror
  · obtain ⟨d, hd, hkeys⟩ := families_ok hknown .empty
    obtain rfl := Except.ok.inj (hfind.symm.trans hd)
    exact (one_family fun f => (hkeys f).trans (by simp [Dict.keys, Dict.empty])).1
      (check_families_ok.1 hagree)
  · obtain ⟨d, hd, hcount⟩ := exclusive_ok hknown .empty
    obtain rfl := Except.ok.inj (hholders.symm.trans hd)
    exact (no_conflict fun k => (hcount k).trans (Nat.zero_add _)).1 (check_exclusive_ok.1 hfree)
  · have hdev : r.devices.get? device = some dev := by
      cases hget : r.devices.get? device with
      | none => rw [hget] at hdev; cases hdev
      | some spec => rw [hget] at hdev; exact congrArg some (Except.ok.inj hdev)
    have hdelta : r.sum_peaks leaves = some delta := by
      cases hsum : r.sum_peaks leaves with
      | none => rw [hsum] at hdelta; cases hdelta
      | some n => rw [hsum] at hdelta; exact congrArg some (Except.ok.inj hdelta)
    obtain ⟨ids, hids⟩ := expand_ok hexpand
    obtain ⟨hall, rfl⟩ := sum_peaks_eq.1 hdelta
    exact ⟨dev, leaves, ids, hdev, hids, hall, rfl, check_memory_ok.1 hfits⟩

/-- What is valid is accepted. -/
theorem Valid.ok (h : Valid r selected device admission peak) :
    ∃ plan, r.validate_composition device selected admission = .ok plan ∧
      plan.peak_unified_mb = peak := by
  obtain ⟨dev, leaves', ids', hdev, hids', hall', hpeak, hfits⟩ := h.memory
  have hknown : ∀ id ∈ selected, (r.leaves.get? id).isSome = true := fun id hid =>
    h.known id (reach_selected hid)
  obtain ⟨d, hpair⟩ := pair_capabilities_ok.2
    ⟨hknown, h.capabilities, fun c _ => (rfl : (Dict.empty : Dict String String).get? c = none)⟩
  obtain ⟨families, hfind, hkeys⟩ := families_ok hknown .empty
  obtain ⟨exclusive, hholders, hcount⟩ := exclusive_ok hknown .empty
  have hagree : check_families families = .ok () := check_families_ok.2
    ((one_family fun f => (hkeys f).trans (by simp [Dict.keys, Dict.empty])).2 h.families)
  have hfree : check_exclusive admission exclusive = .ok () := check_exclusive_ok.2
    ((no_conflict fun k => (hcount k).trans (Nat.zero_add _)).2 h.exclusive)
  obtain ⟨leaves, ids, hexpand, hids, -⟩ | ⟨id, -, hreach, hnone⟩ := expand_total r selected
  · have hsame := hids.perm hids'
    have hdelta : r.sum_peaks leaves =
        some (leaves'.map fun leaf => (r.peak_unified_mb leaf).getD 0).sum :=
      sum_peaks_eq.2 ⟨fun leaf hleaf => hall' leaf (hsame.mem_iff.1 hleaf),
        (hsame.map _).symm.sum_eq⟩
    rw [hpeak] at hfits
    refine ⟨⟨device, selected, leaves.map fun leaf => ⟨leaf, r.resolve_precision leaf device⟩, peak,
      r.headroom dev.unified_mb⟩, ?_, rfl⟩
    unfold Registry.validate_composition
    simp only [bind, bind_eq_ok]
    exact ⟨dev, by rw [hdev]; rfl, d, hpair, families, hfind, (), hagree, exclusive, hholders, (),
      hfree, leaves, hexpand, _, by rw [hdelta]; rfl, (), check_memory_ok.2 hfits, by rw [hpeak]⟩
  · have hsome := h.known id hreach
    rw [hnone] at hsome
    cases hsome

/-- None of the conditions depends on the order. -/
theorem Valid.perm (h : Valid r selected device admission peak) (hperm : selected.Perm selected') :
    Valid r selected' device admission peak := by
  have hreach : ∀ id, r.Reachable selected' id ↔ r.Reachable selected id := fun id =>
    Graph.reach_congr (fun _ => hperm.mem_iff.symm) id
  have hsel : ∀ f, (selection r selected f).Perm (selection r selected' f) := fun f =>
    hperm.filterMap _
  obtain ⟨dev, leaves, ids, hdev, hids, hmemory⟩ := h.memory
  refine ⟨fun id hid => h.known id ((hreach id).1 hid), (hsel _).nodup_iff.1 h.capabilities,
    fun a ha b hb => h.families a ((hsel _).mem_iff.2 ha) b ((hsel _).mem_iff.2 hb),
    h.exclusive.imp_left (hsel _).nodup_iff.1, dev, leaves, ids, hdev, ?_, hmemory⟩
  exact ⟨hids.nodup, hids.leaves, fun id => (hids.reachable id).trans (hreach id).symm⟩

theorem validate_iff : (∃ plan, r.validate_composition device selected admission = .ok plan ∧
    plan.peak_unified_mb = peak) ↔ Valid r selected device admission peak := by
  constructor
  · rintro ⟨plan, hplan, rfl⟩
    exact valid_of_ok hplan
  · exact Valid.ok

end

/-- A composition is accepted, with a peak, exactly if it is valid with that peak; its order changes
    neither. -/
theorem validate_exact (r : Registry) (device : String) (selected : List String)
    (admission : Option String) :
    (∀ peak, (∃ plan, r.validate_composition device selected admission = .ok plan ∧
        plan.peak_unified_mb = peak) ↔ Valid r selected device admission peak) ∧
      ∀ selected', selected.Perm selected' → ∀ peak,
        (∃ plan, r.validate_composition device selected admission = .ok plan ∧
            plan.peak_unified_mb = peak) ↔
          ∃ plan, r.validate_composition device selected' admission = .ok plan ∧
            plan.peak_unified_mb = peak := by
  refine ⟨fun _ => validate_iff, fun selected' hperm peak => ?_⟩
  rw [validate_iff, validate_iff]
  exact ⟨fun h => h.perm hperm, fun h => h.perm hperm.symm⟩

/-! ### A selection that meets the conditions on its own leaves -/

namespace Sample

/-- The registry above with a device of 4 GB. -/
def nano : Registry := { registry with devices := Dict.empty.set "nano" ⟨4096, 0, ""⟩ }

theorem nano_known {id : String} (h : (nano.leaves.get? id).isSome = true) : id = "asr" := by
  have hmem : id ∈ ["asr"] := (Dict.get?_isSome nano.leaves id).1 h
  exact List.mem_singleton.1 hmem

end Sample

/-- That the selected ids are known is not enough: what they require has to be known, too. -/
theorem selected_known_only : ¬ ∀ (r : Registry) (device : String) (selected : List String)
    (admission : Option String), (∀ id ∈ selected, (r.leaves.get? id).isSome = true) →
      (selection r selected fun leaf => some leaf.capability).Nodup →
      (∀ a ∈ selection r selected backend_family, ∀ b ∈ selection r selected backend_family, a = b) →
      ((selection r selected exclusive_of).Nodup ∨ admission = some "serial") →
      (∃ (dev : DeviceSpec) (ids : List String), r.devices.get? device = some dev ∧ ids.Nodup ∧
        (∀ id, id ∈ ids ↔ r.Reachable selected id ∧ (r.leaves.get? id).isSome = true) ∧
          ∃ delta, r.sum_peaks (ids.filterMap r.leaves.get?) = some delta ∧
            dev.base_reservation_mb + delta ≤ r.headroom dev.unified_mb) →
      ∃ plan, r.validate_composition device selected admission = .ok plan := by
  intro h
  have hreach : ∀ id, id ∈ ["asr"] ↔ Sample.nano.Reachable ["asr"] id ∧
      (Sample.nano.leaves.get? id).isSome = true := fun id => by
    constructor
    · intro hid
      obtain rfl := List.mem_singleton.1 hid
      exact ⟨reach_selected hid, by decide⟩
    · rintro ⟨-, hknown⟩
      exact List.mem_singleton.2 (Sample.nano_known hknown)
  obtain ⟨plan, hplan⟩ := h Sample.nano "nano" ["asr"] none (by decide) (by decide) (by decide)
    (.inl (by decide)) ⟨⟨4096, 0, ""⟩, ["asr"], rfl, by decide, hreach, 0, rfl, by decide⟩
  have herror : Sample.nano.validate_composition "nano" ["asr"] none = .error (.no_leaf "vad") := rfl
  rw [herror] at hplan
  cases hplan

end LocalVoice.LeafComposition
