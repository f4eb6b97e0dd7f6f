import Mathlib.Data.List.Nodup

/-! Insertion-ordered dictionaries with unique keys, as an interpreter's built-in `dict` keeps them:
    assigning to a known key keeps its place, assigning to a new one appends it. The uniqueness of
    the keys is a field, so a lookup and a membership in the item list say the same
    (`mem_items`), and a loop over the items meets every key at most once. -/

namespace LocalVoice.Lib

/-- A dictionary: its items in insertion order, no key twice. -/
structure Dict (κ ν : Type) where
  items : List (κ × ν)
  nodup : (items.map Prod.fst).Nodup

namespace Dict
variable {κ ν : Type} [DecidableEq κ]

/-- Overwrite `k` in place when it is there, append it otherwise. -/
def setItems (k : κ) (v : ν) : List (κ × ν) → List (κ × ν)
  | [] => [(k, v)]
  | (j, w) :: rest => if j = k then (k, v) :: rest else (j, w) :: setItems k v rest

theorem mem_keys_setItems (k j : κ) (v : ν) : ∀ l : List (κ × ν),
    j ∈ (setItems k v l).map Prod.fst ↔ j = k ∨ j ∈ l.map Prod.fst
  | [] => by simp [setItems]
  | (i, w) :: rest => by
    by_cases h : i = k
    · subst h; simp [setItems]
    · simp only [setItems, if_neg h, List.map_cons, List.mem_cons, mem_keys_setItems k j v rest]
      tauto

theorem nodup_setItems (k : κ) (v : ν) : ∀ l : List (κ × ν), (l.map Prod.fst).Nodup →
    ((setItems k v l).map Prod.fst).Nodup
  | [], _ => by simp [setItems]
  | (i, w) :: rest, hl => by
    rw [List.map_cons, List.nodup_cons] at hl
    by_cases h : i = k
    · subst h; simpa [setItems] using hl
    · simp only [setItems, if_neg h, List.map_cons, List.nodup_cons, mem_keys_setItems]
      exact ⟨fun hc => hc.elim h hl.1, nodup_setItems k v rest hl.2⟩

def empty : Dict κ ν := ⟨[], by simp⟩

/-- `d[k] = v`. -/
def set (d : Dict κ ν) (k : κ) (v : ν) : Dict κ ν :=
  ⟨setItems k v d.items, nodup_setItems k v d.items d.nodup⟩

/-- `d.get(k)`. -/
def get? (d : Dict κ ν) (k : κ) : Option ν := d.items.lookup k

def keys (d : Dict κ ν) : List κ := d.items.map Prod.fst

/-- `d.update(l)`: the items of `l` are assigned one after the other. -/
def update (d : Dict κ ν) (l : List (κ × ν)) : Dict κ ν :=
  l.foldl (fun d p => d.set p.1 p.2) d

/-- `{k: v for k, v in d.items() if p(k)}`. -/
def filterKeys (p : κ → Bool) (d : Dict κ ν) : Dict κ ν :=
  ⟨d.items.filter (fun i => p i.1),
    d.nodup.sublist (List.filter_sublist.map Prod.fst)⟩

/-- `{k: f(v) for k, v in d.items()}`. -/
def mapValues {μ : Type} (f : ν → μ) (d : Dict κ ν) : Dict κ μ :=
  ⟨d.items.map (fun i => (i.1, f i.2)), by simpa [List.map_map, Function.comp_def] using d.nodup⟩

/-- `d.pop(k, None)`. -/
def erase (d : Dict κ ν) (k : κ) : Dict κ ν := d.filterKeys (· ≠ k)

/-- The items in the order of their keys, as `json.dump(d, sort_keys=True)` writes them. -/
def sort_keys [LE κ] [DecidableLE κ] (d : Dict κ ν) : Dict κ ν :=
  ⟨d.items.mergeSort fun p q => p.1 ≤ q.1,
    ((d.items.mergeSort_perm _).map Prod.fst).nodup_iff.2 d.nodup⟩

/-! ### Lookups -/

theorem lookup_cons_ite (k i : κ) (w : ν) (l : List (κ × ν)) :
    ((i, w) :: l).lookup k = if k = i then some w else l.lookup k := by
  by_cases h : k = i
  · subst h; simp
  · rw [List.lookup_cons, beq_eq_false_iff_ne.2 h, if_neg h]

theorem lookup_setItems (k j : κ) (v : ν) : ∀ l : List (κ × ν),
    (setItems k v l).lookup j = if j = k then some v else l.lookup j
  | [] => by simp [setItems, lookup_cons_ite]
  | (i, w) :: rest => by
    by_cases hi : i = k
    · subst hi
      simp only [setItems, if_pos, lookup_cons_ite]
      by_cases hj : j = i <;> simp [hj]
    · by_cases hj : j = i
      · subst hj; simp [setItems, hi]
      · simp [setItems, lookup_cons_ite, hi, hj, lookup_setItems k j v rest]

@[simp] theorem get?_set (d : Dict κ ν) (k j : κ) (v : ν) :
    (d.set k v).get? j = if j = k then some v else d.get? j :=
  lookup_setItems k j v d.items

@[simp] theorem get?_empty (k : κ) : (empty : Dict κ ν).get? k = none := rfl

theorem lookup_isSome (k : κ) : ∀ l : List (κ × ν), (l.lookup k).isSome ↔ k ∈ l.map Prod.fst
  | [] => by simp
  | (i, w) :: rest => by
    rw [lookup_cons_ite, List.map_cons, List.mem_cons, ← lookup_isSome k rest]
    by_cases h : k = i <;> simp [h]

theorem get?_isSome (d : Dict κ ν) (k : κ) : (d.get? k).isSome ↔ k ∈ d.keys :=
  lookup_isSome k d.items

theorem mem_keys {d : Dict κ ν} {k : κ} : k ∈ d.keys ↔ ∃ v, d.get? k = some v := by
  rw [← get?_isSome, Option.isSome_iff_exists]

theorem get?_eq_none {d : Dict κ ν} {k : κ} : d.get? k = none ↔ k ∉ d.keys := by
  rw [← get?_isSome, Option.not_isSome_iff_eq_none]

theorem mem_iff_lookup {k : κ} {v : ν} : ∀ {l : List (κ × ν)}, (l.map Prod.fst).Nodup →
    ((k, v) ∈ l ↔ l.lookup k = some v)
  | [], _ => by simp
  | (i, w) :: rest, hl => by
    rw [List.map_cons, List.nodup_cons] at hl
    by_cases h : k = i
    · subst h
      have hk : (k, v) ∉ rest := fun hm => hl.1 (List.mem_map.2 ⟨_, hm, rfl⟩)
      simp [hk, eq_comm]
    · simp [lookup_cons_ite, h, mem_iff_lookup hl.2]

theorem mem_items {d : Dict κ ν} {k : κ} {v : ν} : (k, v) ∈ d.items ↔ d.get? k = some v :=
  mem_iff_lookup d.nodup

theorem get?_filterKeys (p : κ → Bool) (d : Dict κ ν) (k : κ) :
    (d.filterKeys p).get? k = if p k then d.get? k else none := by
  apply Option.ext
  intro v
  rw [← mem_items, filterKeys, List.mem_filter]
  by_cases h : p k <;> simp [h, mem_items]

@[simp] theorem get?_erase (d : Dict κ ν) (k j : κ) :
    (d.erase k).get? j = if j = k then none else d.get? j := by
  rw [erase, get?_filterKeys]
  by_cases h : j = k <;> simp [h]

@[simp] theorem get?_sort_keys [LE κ] [DecidableLE κ] (d : Dict κ ν) (k : κ) :
    d.sort_keys.get? k = d.get? k := by
  apply Option.ext
  intro v
  rw [← mem_items, ← mem_items]
  exact (d.items.mergeSort_perm _).mem_iff

@[simp] theorem get?_mapValues {μ : Type} (f : ν → μ) (d : Dict κ ν) (k : κ) :
    (d.mapValues f).get? k = (d.get? k).map f := by
  show List.lookup k (d.items.map _) = (d.items.lookup k).map f
  induction d.items with
  | nil => rfl
  | cons p rest ih =>
    obtain ⟨i, w⟩ := p
    by_cases h : k = i <;> simp [lookup_cons_ite, h, ih]

/-- After an update a key has the last value assigned to it, or the one it had. -/
theorem get?_update (l : List (κ × ν)) (d : Dict κ ν) (k : κ) :
    (d.update l).get? k = (l.reverse.lookup k).or (d.get? k) := by
  induction l generalizing d with
  | nil => simp [update]
  | cons p rest ih =>
    obtain ⟨i, w⟩ := p
    have h : d.update ((i, w) :: rest) = (d.set i w).update rest := rfl
    rw [h, ih, get?_set, List.reverse_cons, List.lookup_append]
    by_cases hk : k = i <;> simp [lookup_cons_ite, hk]

/-- What is assigned to other keys does not count. -/
theorem get?_update_other {l : List (κ × ν)} {k : κ} (h : ∀ e ∈ l, e.1 ≠ k) (d : Dict κ ν) :
    (d.update l).get? k = d.get? k := by
  rw [get?_update, List.lookup_eq_none_iff.2, Option.none_or]
  intro e he
  rw [bne_iff_ne]
  exact (h e (List.mem_reverse.1 he)).symm

/-! ### Items, assigned in order -/

theorem setItems_self {k : κ} {v : ν} {l : List (κ × ν)} (h : l.lookup k = some v) : setItems k v l = l := by
  induction l with
  | nil => cases h
  | cons p rest ih =>
    obtain ⟨j, w⟩ := p
    rw [lookup_cons_ite] at h
    by_cases hj : k = j
    · subst hj
      rw [if_pos rfl] at h
      cases h
      rw [setItems, if_pos rfl]
    · rw [if_neg hj] at h
      rw [setItems, if_neg (Ne.symm hj), ih h]

/-- What is assigned is there already. -/
theorem set_self {d : Dict κ ν} {k : κ} {v : ν} (h : d.get? k = some v) : d.set k v = d := by
  have hitems : (d.set k v).items = d.items := setItems_self h
  cases hd : d.set k v
  cases d
  simp_all

/-- The keys after an update were there, or were assigned. -/
theorem mem_keys_update {l : List (κ × ν)} {d : Dict κ ν} {k : κ} (h : k ∈ (d.update l).keys) :
    k ∈ d.keys ∨ k ∈ l.map Prod.fst := by
  induction l generalizing d with
  | nil => exact Or.inl h
  | cons p rest ih =>
    rcases ih h with hset | hrest
    · rcases (mem_keys_setItems p.1 k p.2 d.items).1 hset with rfl | hold
      · exact Or.inr (by simp)
      · exact Or.inl hold
    · exact Or.inr (List.mem_cons_of_mem _ hrest)

theorem setItems_append {k : κ} (v : ν) {l : List (κ × ν)} (h : k ∉ l.map Prod.fst) :
    setItems k v l = l ++ [(k, v)] := by
  induction l with
  | nil => rfl
  | cons p rest ih =>
    obtain ⟨j, w⟩ := p
    rw [List.map_cons, List.mem_cons, not_or] at h
    rw [setItems, if_neg (Ne.symm h.1), ih h.2, List.cons_append]

/-- New keys are appended one after the other. -/
theorem items_update {l : List (κ × ν)} {d : Dict κ ν}
    (h : ((d.items ++ l).map Prod.fst).Nodup) : (d.update l).items = d.items ++ l := by
  induction l generalizing d with
  | nil => simp [update]
  | cons p rest ih =>
    obtain ⟨k, v⟩ := p
    have hfresh : k ∉ d.items.map Prod.fst := by
      rw [List.map_append, List.map_cons, List.nodup_append] at h
      intro hk
      exact h.2.2 k hk k (by simp) rfl
    have hset : (d.set k v).items = d.items ++ [(k, v)] := setItems_append v hfresh
    have hstep : d.update ((k, v) :: rest) = (d.set k v).update rest := rfl
    rw [hstep, ih (by rw [hset]; simpa using h), hset, List.append_assoc, List.singleton_append]

/-- A dictionary is built again from its items. -/
@[simp] theorem update_items (d : Dict κ ν) : empty.update d.items = d := by
  have h : (empty.update d.items).items = d.items := items_update d.nodup
  cases hd : empty.update d.items
  cases d
  simp_all

end Dict

end LocalVoice.Lib
