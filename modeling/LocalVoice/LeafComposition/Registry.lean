import LocalVoice.Lib.Dict
import LocalVoice.Lib.Json
import LocalVoice.Lib.PyInt
import LocalVoice.Lib.Traversal

/-! The registry of `server/core/leaf_composition.py`, and what a selection of leaves pulls in. The
    `requires` of the leaves are a graph, which is visited depth first; a leaf that is required but
    not in the registry is an error and not passed over. -/

namespace LocalVoice.LeafComposition
open LocalVoice.Lib

/-- A leaf as far as the resolvers read it. -/
structure Leaf where
  id : String
  capability : String
  backend : String
  model : String
  precision : Option String
  files : List String
  requires : List String
  runtime_env : Dict String String
  resources : Dict String Json

structure DeviceSpec where
  unified_mb : ℤ
  base_reservation_mb : ℤ
  device_class : String

/-- The registry. The last two fields are what `int` makes of a value that is neither a number nor a
    text (`none` is an `OverflowError`, the inner one a `TypeError` or `ValueError`), and the product
    `int(unified_mb * headroom_fraction)`. -/
structure Registry where
  leaves : Dict String Leaf
  devices : Dict String DeviceSpec
  default_precision : Dict String (Dict String String)
  int_other : String → Option (Option ℤ)
  headroom : ℤ → ℤ

/-- `CompositionError`; `too_deep` is never raised (`expand_total`). -/
inductive CompositionError where
  | no_leaf (leaf_id : String)
  | unknown_device (device : String)
  | illegal_pairing (existing lid capability : String)
  | incompatible_families (families : List (String × String))
  | exclusive_conflict (resource : String) (holders : List String)
  | memory (delta peak headroom : ℤ) (leaves : List String)
  | overflow
  | too_deep

namespace Registry
variable (r : Registry)

/-- `get_leaf`. -/
def get_leaf (leaf_id : String) : Except CompositionError Leaf :=
  match r.leaves.get? leaf_id with
  | some leaf => .ok leaf
  | none => .error (.no_leaf leaf_id)

/-- The leaves and what they require. -/
def graph : Lib.Graph String Leaf := ⟨r.leaves.get?, Leaf.requires⟩

/-- `expand`: `_visit` of each id, one after the other, with one set of seen ids. -/
def expand (leaf_ids : List String) : Except CompositionError (List Leaf) :=
  match r.graph.traverse (r.leaves.items.length + 1) leaf_ids with
  | .ok ordered => .ok ordered
  | .error (.missing leaf_id) => .error (.no_leaf leaf_id)
  | .error .depth => .error .too_deep

/-- An id that can be reached from a list of ids through `requires`. -/
def Reachable (leaf_ids : List String) (id : String) : Prop := r.graph.Reach leaf_ids id

/-- The files of one more leaf, those that are there already passed over. -/
def add_files (files : List String) (leaf : Leaf) : List String :=
  leaf.files.foldl (fun files f => if f ∈ files then files else files ++ [f]) files

/-- `resolve_pull`. -/
def resolve_pull (leaf_ids : List String) : Except CompositionError (List String) :=
  (r.expand leaf_ids).map fun leaves => leaves.foldl add_files []

end Registry

/-! ### Expansion -/

section
variable {r : Registry} {xs ys ids : List String} {leaves : List Leaf} {id : String}

/-- The leaves of a list of ids, each once, that are the ones that can be reached. -/
structure Expansion (r : Registry) (xs : List String) (leaves : List Leaf) (ids : List String) :
    Prop where
  nodup : ids.Nodup
  leaves : ids.map r.leaves.get? = leaves.map some
  reachable : ∀ id, id ∈ ids ↔ r.Reachable xs id

theorem expand_ok (h : r.expand xs = .ok leaves) : ∃ ids, Expansion r xs leaves ids := by
  rw [Registry.expand] at h
  split at h
  · next ordered htraverse =>
    obtain rfl := Except.ok.inj h
    obtain ⟨ids, hnodup, hnodes, hmem⟩ := Graph.traverse_ok htraverse
    exact ⟨ids, hnodup, hnodes, hmem⟩
  · cases h
  · cases h

/-- An expansion comes to its end: either everything that can be reached is known, or it is an error
    about an id that is not. -/
theorem expand_total (r : Registry) (xs : List String) :
    (∃ leaves ids, r.expand xs = .ok leaves ∧ Expansion r xs leaves ids ∧
        ∀ id, r.Reachable xs id → (r.leaves.get? id).isSome = true) ∨
      ∃ id, r.expand xs = .error (.no_leaf id) ∧ r.Reachable xs id ∧ r.leaves.get? id = none := by
  have hkeys : ∀ k, (r.graph.node k).isSome → k ∈ r.leaves.keys := fun k hk =>
    (Dict.get?_isSome r.leaves k).1 hk
  have hlen : r.leaves.keys.length < r.leaves.items.length + 1 := by
    rw [Dict.keys, List.length_map]
    exact Nat.lt_succ_self _
  rcases Graph.traverse_total hkeys hlen xs with ⟨leaves, htraverse, hall⟩ | ⟨m, htraverse, hreach, hnone⟩
  · have hexpand : r.expand xs = .ok leaves := by rw [Registry.expand, htraverse]
    obtain ⟨ids, hids⟩ := expand_ok hexpand
    exact .inl ⟨leaves, ids, hexpand, hids, hall⟩
  · exact .inr ⟨m, by rw [Registry.expand, htraverse], hreach, hnone⟩

theorem Expansion.mem (h : Expansion r xs leaves ids) {leaf : Leaf} :
    leaf ∈ leaves ↔ ∃ id, r.Reachable xs id ∧ r.leaves.get? id = some leaf := by
  have hmap : leaf ∈ leaves ↔ some leaf ∈ ids.map r.leaves.get? := by
    rw [h.leaves]
    simp
  rw [hmap, List.mem_map]
  exact exists_congr fun id => and_congr_left' (h.reachable id)

/-! ### Files -/

theorem foldl_new {fs : List String} : ∀ {files : List String},
    (∀ f, f ∈ fs.foldl (fun files f => if f ∈ files then files else files ++ [f]) files ↔
      f ∈ files ∨ f ∈ fs) ∧
    (files.Nodup → (fs.foldl (fun files f => if f ∈ files then files else files ++ [f]) files).Nodup)
    := by
  induction fs with
  | nil => simp
  | cons x fs ih =>
    intro files
    rw [List.foldl_cons]
    by_cases hx : x ∈ files
    · rw [if_pos hx]
      refine ⟨fun f => ?_, ih.2⟩
      rw [ih.1, List.mem_cons]
      constructor
      · exact Or.imp_right .inr
      · rintro (h | rfl | h)
        · exact .inl h
        · exact .inl hx
        · exact .inr h
    · rw [if_neg hx]
      refine ⟨fun f => ?_, fun hnodup => ih.2 ?_⟩
      · rw [ih.1, List.mem_append, List.mem_singleton, List.mem_cons, or_assoc]
      · exact hnodup.append (List.nodup_singleton x) (List.disjoint_singleton.2 hx)

theorem pulled (leaves : List Leaf) : ∀ {files : List String},
    (∀ f, f ∈ leaves.foldl Registry.add_files files ↔ f ∈ files ∨ ∃ leaf ∈ leaves, f ∈ leaf.files) ∧
      (files.Nodup → (leaves.foldl Registry.add_files files).Nodup) := by
  induction leaves with
  | nil => simp
  | cons leaf leaves ih =>
    intro files
    refine ⟨fun f => ?_, fun hnodup => ?_⟩
    · rw [List.foldl_cons, ih.1, Registry.add_files, foldl_new.1, or_assoc]
      exact or_congr_right (by simp)
    · rw [List.foldl_cons]
      exact ih.2 (foldl_new.2 hnodup)

/-- The files of a selection: those of every leaf it reaches. -/
structure Pull (r : Registry) (xs files : List String) : Prop where
  resolves : r.resolve_pull xs = .ok files
  nodup : files.Nodup
  mem : ∀ f, f ∈ files ↔ ∃ id leaf, r.Reachable xs id ∧ r.leaves.get? id = some leaf ∧ f ∈ leaf.files

theorem pull_total (r : Registry) (xs : List String) :
    (∃ files, Pull r xs files ∧ ∀ id, r.Reachable xs id → (r.leaves.get? id).isSome = true) ∨
      ∃ id, r.resolve_pull xs = .error (.no_leaf id) ∧ r.Reachable xs id ∧
        r.leaves.get? id = none := by
  rcases expand_total r xs with ⟨leaves, ids, hexpand, hids, hall⟩ | ⟨id, hexpand, hunknown⟩
  · refine .inl ⟨leaves.foldl Registry.add_files [], ⟨?_, (pulled leaves).2 .nil, fun f => ?_⟩, hall⟩
    · rw [Registry.resolve_pull, hexpand]
      rfl
    · rw [(pulled leaves).1]
      constructor
      · rintro (h | ⟨leaf, hleaf, hf⟩)
        · cases h
        · obtain ⟨id, hid, hget⟩ := hids.mem.1 hleaf
          exact ⟨id, leaf, hid, hget, hf⟩
      · rintro ⟨id, leaf, hid, hget, hf⟩
        exact .inr ⟨leaf, hids.mem.2 ⟨id, hid, hget⟩, hf⟩
  · refine .inr ⟨id, ?_, hunknown⟩
    rw [Registry.resolve_pull, hexpand]
    rfl

/-- Two selections that only reach known ids pull together what each of them pulls. -/
theorem pull_append (r : Registry) (xs ys : List String) :
    (∃ fx fy files, Pull r xs fx ∧ Pull r ys fy ∧ Pull r (xs ++ ys) files ∧
        ∀ f, f ∈ files ↔ f ∈ fx ∨ f ∈ fy) ∨
      ∃ id, r.resolve_pull (xs ++ ys) = .error (.no_leaf id) ∧ r.Reachable (xs ++ ys) id ∧
        r.leaves.get? id = none := by
  rcases pull_total r (xs ++ ys) with ⟨files, hpull, hall⟩ | hunknown
  · have hknown : ∀ {id}, r.Reachable (xs ++ ys) id → r.leaves.get? id ≠ none := fun h hnone => by
      have hsome := hall _ h
      rw [hnone] at hsome
      cases hsome
    rcases pull_total r xs with ⟨fx, hx, -⟩ | ⟨id, -, hreach, hnone⟩
    · rcases pull_total r ys with ⟨fy, hy, -⟩ | ⟨id, -, hreach, hnone⟩
      · refine .inl ⟨fx, fy, files, hx, hy, hpull, fun f => ?_⟩
        rw [hpull.mem, hx.mem, hy.mem, ← exists_or]
        refine exists_congr fun id => ?_
        rw [← exists_or]
        refine exists_congr fun leaf => ?_
        rw [← or_and_right]
        exact and_congr_left' (Graph.reach_append id)
      · exact absurd hnone (hknown ((Graph.reach_append id).2 (.inr hreach)))
    · exact absurd hnone (hknown ((Graph.reach_append id).2 (.inl hreach)))
  · exact .inr hunknown

/-- An expansion returns the leaves that can be reached, each once, or is an error about an unknown id
    that can be reached; and two selections pull together what each of them pulls, without
    duplicates, or pulling both is such an error. -/
theorem pulls_compose (r : Registry) (xs ys : List String) :
    ((∃ leaves ids, r.expand xs = .ok leaves ∧ Expansion r xs leaves ids ∧
        ∀ id, r.Reachable xs id → (r.leaves.get? id).isSome = true) ∨
      ∃ id, r.expand xs = .error (.no_leaf id) ∧ r.Reachable xs id ∧ r.leaves.get? id = none) ∧
    ((∃ fx fy files, Pull r xs fx ∧ Pull r ys fy ∧ Pull r (xs ++ ys) files ∧
        ∀ f, f ∈ files ↔ f ∈ fx ∨ f ∈ fy) ∨
      ∃ id, r.resolve_pull (xs ++ ys) = .error (.no_leaf id) ∧ r.Reachable (xs ++ ys) id ∧
        r.leaves.get? id = none) :=
  ⟨expand_total r xs, pull_append r xs ys⟩

/-! ### A leaf that is required and missing -/

namespace Sample

/-- A leaf for speech recognition that requires a model nothing provides. -/
def asr : Leaf where
  id := "asr"
  capability := "asr"
  backend := "jetson.trt"
  model := "paraformer"
  precision := none
  files := ["asr.onnx"]
  requires := ["vad"]
  runtime_env := .empty
  resources := .empty

def registry : Registry where
  leaves := Dict.empty.set "asr" asr
  devices := .empty
  default_precision := .empty
  int_other _ := some none
  headroom n := n

end Sample

/-- Of known ids only the selected ones are, and `asr` is one. -/
theorem required_unknown : ¬ ∀ (r : Registry) (xs : List String), (∀ x ∈ xs, x ∈ r.leaves.keys) →
    ∃ leaves ids, r.expand xs = .ok leaves ∧ Expansion r xs leaves ids := by
  intro h
  obtain ⟨leaves, ids, hexpand, -⟩ := h Sample.registry ["asr"] (by decide)
  have herror : Sample.registry.expand ["asr"] = .error (.no_leaf "vad") := rfl
  rw [herror] at hexpand
  cases hexpand

end

end LocalVoice.LeafComposition
