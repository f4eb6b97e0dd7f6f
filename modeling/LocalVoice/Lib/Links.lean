import Mathlib.Data.Nat.Notation
import LocalVoice.Lib.Dict

/-! Disks with links. A place is the list of names that leads to it from the root without a link; a
    symbolic link is an entry that leads elsewhere, and a hard link is a second entry with the same
    inode, so what is written through one name is seen under the other. -/

namespace LocalVoice.Lib

abbrev Place := List String

/-- What a directory has under a name. -/
inductive Entry where
  | directory
  | file (inode : ℕ)
  | link (absolute : Bool) (target : List String)
  | special
  deriving DecidableEq

structure Disk (β : Type) where
  entries : Dict Place Entry
  contents : Dict ℕ β

/-- What is seen at a place. -/
inductive Seen (β : Type) where
  | directory
  | file (content : Option β)
  | link (absolute : Bool) (target : List String)
  | special
  deriving DecidableEq

namespace Disk
variable {β : Type}

def entry (d : Disk β) (q : Place) : Option Entry := d.entries.get? q

def seen (d : Disk β) : Entry → Seen β
  | .directory => .directory
  | .file i => .file (d.contents.get? i)
  | .link absolute target => .link absolute target
  | .special => .special

def look (d : Disk β) (q : Place) : Option (Seen β) := (d.entry q).map d.seen

/-- An inode that no entry has. -/
def fresh (d : Disk β) : ℕ :=
  d.entries.items.foldr (fun e n => match e.2 with | .file i => max n (i + 1) | _ => n) 0

/-! ### Changes -/

/-- An entry at a place. -/
def enter (d : Disk β) (q : Place) (e : Entry) : Disk β := { d with entries := d.entries.set q e }

/-- A new file. -/
def create (d : Disk β) (q : Place) (b : β) : Disk β :=
  ⟨d.entries.set q (.file d.fresh), d.contents.set d.fresh b⟩

/-- A file that is there gets another content, under all of its names. -/
def overwrite (d : Disk β) (i : ℕ) (b : β) : Disk β := { d with contents := d.contents.set i b }

/-- Directories, each in the one before. -/
def make_dirs (d : Disk β) (q : Place) : List String → Disk β
  | [] => d
  | c :: rest => (d.enter (q ++ [c]) .directory).make_dirs (q ++ [c]) rest

/-- What is at a place, and below it, goes. -/
def clear (d : Disk β) (q : Place) : Disk β :=
  ⟨d.entries.filterKeys fun p => !q.isPrefixOf p, d.contents⟩

/-- What is at a place, and below it, is moved to another one, instead of what was there. -/
def relocate (d : Disk β) (source target : Place) : Disk β :=
  ⟨((d.clear source).clear target).entries.update
    ((d.entries.items.filter fun e => source.isPrefixOf e.1).map fun e =>
      (target ++ e.1.drop source.length, e.2)), d.contents⟩

/-! ### Walks -/

/-- Where a walk ends: at a directory; at something else, with no name left; where a name is not
    there, with the names after it; the same, but behind a link at the end; or where it cannot go on. -/
inductive Walk where
  | dir (q : Place)
  | other (q : Place)
  | missing (q : Place) (c : String) (rest : List String)
  | dangling (q : Place) (c : String) (rest : List String)
  | stuck

/-- From a directory along the names, each link followed as `follow` says. -/
def walk (d : Disk β) (follow : Place → List String → Walk) (q : Place) : List String → Walk
  | [] => .dir q
  | c :: rest =>
    if c = ".." then d.walk follow q.dropLast rest
    else match d.entry (q ++ [c]) with
      | none => .missing q c rest
      | some .directory => d.walk follow (q ++ [c]) rest
      | some (.link absolute target) => match follow (if absolute then [] else q) target with
        | .dir p => d.walk follow p rest
        | .other p => if rest = [] then .other p else .stuck
        | .missing p name names | .dangling p name names =>
          if rest = [] then .dangling p name names else .stuck
        | .stuck => .stuck
      | some _ => if rest = [] then .other (q ++ [c]) else .stuck

/-- Where the names lead to from a directory, with as many links inside each other as the limit
    says. -/
def lead (d : Disk β) : ℕ → Place → List String → Walk
  | 0 => d.walk fun _ _ => .stuck
  | n + 1 => d.walk (d.lead n)

/-! ### What a change does not change -/

variable {d : Disk β} {p q : Place}

theorem entry_enter {e : Entry} : (d.enter q e).entry p = if p = q then some e else d.entry p :=
  Dict.get?_set d.entries q p e

theorem entry_create {b : β} :
    (d.create q b).entry p = if p = q then some (.file d.fresh) else d.entry p :=
  Dict.get?_set d.entries q p _

@[simp] theorem entry_overwrite {i : ℕ} {b : β} : (d.overwrite i b).entry p = d.entry p := rfl

theorem lt_fresh {i : ℕ} (h : d.entry p = some (.file i)) : i < d.fresh := by
  have hmem : (p, Entry.file i) ∈ d.entries.items := Dict.mem_items.2 h
  unfold fresh
  generalize d.entries.items = l at hmem
  induction l with
  | nil => cases hmem
  | cons e rest ih =>
    simp only [List.foldr_cons]
    rcases List.mem_cons.1 hmem with rfl | hrest
    · exact Nat.lt_of_lt_of_le (Nat.lt_succ_self i) (Nat.le_max_right _ _)
    · have hlt := ih hrest
      split
      · exact Nat.lt_of_lt_of_le hlt (Nat.le_max_left _ _)
      · exact hlt

theorem look_enter {e : Entry} : (d.enter q e).look p = if p = q then some (d.seen e) else d.look p := by
  unfold look
  rw [entry_enter]
  split
  · cases e <;> rfl
  · cases d.entry p with
    | none => rfl
    | some f => cases f <;> rfl

theorem look_create {b : β} :
    (d.create q b).look p = if p = q then some (.file (some b)) else d.look p := by
  unfold look
  rw [entry_create]
  split
  · simp [seen, create]
  · cases h : d.entry p with
    | none => rfl
    | some e =>
      cases e with
      | file i =>
        have hne : i ≠ d.fresh := Nat.ne_of_lt (lt_fresh h)
        simp [seen, create, hne]
      | _ => rfl

theorem look_overwrite {i : ℕ} {b : β} : (d.overwrite i b).look p =
    if d.entry p = some (.file i) then some (.file (some b)) else d.look p := by
  unfold look
  rw [entry_overwrite]
  cases h : d.entry p with
  | none => simp
  | some e =>
    cases e with
    | file j =>
      by_cases hj : j = i
      · simp [seen, overwrite, hj]
      · simp [seen, overwrite, hj]
    | _ => simp [seen]

theorem look_clear (h : ¬ q <+: p) : (d.clear q).look p = d.look p := by
  have hentry : (d.clear q).entry p = d.entry p := by
    unfold entry clear
    rw [Dict.get?_filterKeys, if_pos]
    rw [Bool.not_eq_true', ← Bool.not_eq_true, List.isPrefixOf_iff_prefix]
    exact h
  unfold look
  rw [hentry]
  rfl

theorem look_relocate {source : Place} (hsource : ¬ source <+: p) (htarget : ¬ q <+: p) :
    (d.relocate source q).look p = d.look p := by
  have hentry : (d.relocate source q).entry p = ((d.clear source).clear q).entry p := by
    refine Dict.get?_update_other (fun e he => ?_) _
    obtain ⟨f, -, rfl⟩ := List.mem_map.1 he
    rintro rfl
    exact htarget (List.prefix_append _ _)
  have hlook : (d.relocate source q).look p = ((d.clear source).clear q).look p := by
    unfold look
    rw [hentry]
    rfl
  rw [hlook, look_clear htarget, look_clear hsource]

/-- An item that is assigned once is what is there afterwards. -/
theorem get?_update_mem {κ ν : Type} [DecidableEq κ] {l : List (κ × ν)} (hnodup : (l.map Prod.fst).Nodup)
    {k : κ} {v : ν} (h : (k, v) ∈ l) (t : Dict κ ν) : (t.update l).get? k = some v := by
  induction l generalizing t with
  | nil => cases h
  | cons e l ih =>
    rw [List.map_cons, List.nodup_cons] at hnodup
    rcases List.mem_cons.1 h with rfl | h
    · have hother : ∀ e ∈ l, e.1 ≠ k := fun e he heq =>
        hnodup.1 (List.mem_map.2 ⟨e, he, heq⟩)
      have hcons : t.update ((k, v) :: l) = (t.set k v).update l := rfl
      rw [hcons, Dict.get?_update_other hother, Dict.get?_set, if_pos rfl]
    · exact ih hnodup.2 h _

/-- What is moved is seen at its new place. -/
theorem look_relocate_target (d : Disk β) (source q : Place) (rest : List String) :
    (d.relocate source q).look (q ++ rest) = d.look (source ++ rest) := by
  let moved := (d.entries.items.filter fun e => source.isPrefixOf e.1).map fun e =>
    (q ++ e.1.drop source.length, e.2)
  have hmoved : ∀ x e, (x, e) ∈ moved ↔ ∃ tail, x = q ++ tail ∧ d.entry (source ++ tail) = some e := by
    intro x e
    constructor
    · intro hmem
      obtain ⟨⟨a, w⟩, ha, hpair⟩ := List.mem_map.1 hmem
      obtain ⟨rfl, rfl⟩ := Prod.mk.inj hpair
      obtain ⟨tail, rfl⟩ := List.isPrefixOf_iff_prefix.1 (List.mem_filter.1 ha).2
      exact ⟨tail, by rw [List.drop_left], Dict.mem_items.1 (List.mem_filter.1 ha).1⟩
    · rintro ⟨tail, rfl, hentry⟩
      refine List.mem_map.2 ⟨(source ++ tail, e), List.mem_filter.2 ⟨Dict.mem_items.2 hentry, ?_⟩, ?_⟩
      · exact List.isPrefixOf_iff_prefix.2 (List.prefix_append _ _)
      · rw [List.drop_left]
  have hnodup : (moved.map Prod.fst).Nodup := by
    rw [List.map_map]
    have hkeys : ((d.entries.items.filter fun e => source.isPrefixOf e.1).map Prod.fst).Nodup :=
      d.entries.nodup.sublist (List.filter_sublist.map _)
    refine List.Nodup.map_on ?_ (List.Nodup.of_map _ hkeys)
    rintro ⟨a, v⟩ ha ⟨b, w⟩ hb hab
    obtain ⟨x, rfl⟩ := List.isPrefixOf_iff_prefix.1 (List.mem_filter.1 ha).2
    obtain ⟨y, rfl⟩ := List.isPrefixOf_iff_prefix.1 (List.mem_filter.1 hb).2
    have hsame : (source ++ x).drop source.length = (source ++ y).drop source.length :=
      List.append_cancel_left hab
    rw [List.drop_left, List.drop_left] at hsame
    subst hsame
    have hv := Dict.mem_items.1 (List.mem_filter.1 ha).1
    rw [Dict.mem_items.1 (List.mem_filter.1 hb).1] at hv
    rw [Option.some.inj hv]
  have hentry : (d.relocate source q).entry (q ++ rest) = d.entry (source ++ rest) := by
    cases hold : d.entry (source ++ rest) with
    | some e => exact get?_update_mem hnodup ((hmoved _ _).2 ⟨rest, rfl, hold⟩) _
    | none =>
      have hother : ∀ e ∈ moved, e.1 ≠ q ++ rest := by
        rintro ⟨x, e⟩ he heq
        obtain ⟨tail, rfl, htail⟩ := (hmoved _ _).1 he
        rw [List.append_cancel_left heq, hold] at htail
        cases htail
      have hgone : ((d.clear source).clear q).entries.get? (q ++ rest) = none := by
        rw [clear, Dict.get?_filterKeys, if_neg]
        simp
      exact (Dict.get?_update_other hother _).trans hgone
  rw [look, hentry]
  rfl

theorem look_make_dirs {c : String} {rest : List String} (h : ¬ q ++ [c] <+: p) :
    (d.make_dirs q (c :: rest)).look p = d.look p := by
  induction rest generalizing d q c with
  | nil =>
    rw [make_dirs, make_dirs, look_enter, if_neg]
    rintro rfl
    exact h (List.prefix_refl _)
  | cons c' rest ih =>
    rw [make_dirs, ih fun hp => h ((List.prefix_append _ _).trans hp), look_enter, if_neg]
    rintro rfl
    exact h (List.prefix_refl _)

/-- The first of the new directories. -/
theorem look_make_dirs_first {c : String} {rest : List String} :
    (d.make_dirs q (c :: rest)).look (q ++ [c]) = some .directory := by
  cases rest with
  | nil =>
    rw [make_dirs, make_dirs, look_enter, if_pos rfl]
    rfl
  | cons c' rest =>
    rw [make_dirs, look_make_dirs, look_enter, if_pos rfl]
    · rfl
    · intro hp
      have hlen := hp.length_le
      simp only [List.length_append, List.length_singleton] at hlen
      exact Nat.not_succ_le_self _ hlen

/-! ### Confinement -/

/-- Nothing looks different outside. -/
def Confined (inside : Place → Prop) (d d' : Disk β) : Prop := ∀ p, ¬ inside p → d'.look p = d.look p

section
variable {inside : Place → Prop} {d' d'' : Disk β}

theorem confined_refl (d : Disk β) : Confined inside d d := fun _ _ => rfl

/-- After what was confined, what is confined is counted from where it began. -/
theorem Confined.and_then (h : Confined inside d d') :
    Confined inside d d'' ↔ Confined inside d' d'' :=
  ⟨fun h' p hp => (h' p hp).trans (h p hp).symm, fun h' p hp => (h' p hp).trans (h p hp)⟩

/-- A change at one place that is seen there is confined exactly if the place is inside. -/
theorem confined_iff_inside (hother : ∀ p, p ≠ q → d'.look p = d.look p) (hseen : d'.look q ≠ d.look q) :
    Confined inside d d' ↔ inside q := by
  constructor
  · intro h
    by_contra hout
    exact hseen (h q hout)
  · intro hin p hp
    refine hother p ?_
    rintro rfl
    exact hp hin

end

/-! ### Walks that go on -/

theorem walk_append (follow : Place → List String → Walk) (xs : List String) (y : String)
    (ys : List String) : d.walk follow q (xs ++ y :: ys) =
      match d.walk follow q xs with
      | .dir p => d.walk follow p (y :: ys)
      | .missing p c rest => .missing p c (rest ++ y :: ys)
      | _ => .stuck := by
  induction xs generalizing q with
  | nil => rfl
  | cons c rest ih =>
    simp only [List.cons_append, walk]
    split
    · exact ih
    · cases hentry : d.entry (q ++ [c]) with
      | none => rfl
      | some e =>
        cases e with
        | directory => exact ih
        | link absolute target =>
          simp only
          cases follow (if absolute then [] else q) target with
          | dir p => exact ih
          | stuck => rfl
          | _ => cases rest <;> rfl
        | _ => cases rest <;> rfl

theorem lead_append (limit : ℕ) (xs : List String) (y : String) (ys : List String) :
    d.lead limit q (xs ++ y :: ys) =
      match d.lead limit q xs with
      | .dir p => d.lead limit p (y :: ys)
      | .missing p c rest => .missing p c (rest ++ y :: ys)
      | _ => .stuck := by
  cases limit with
  | zero => exact walk_append _ xs y ys
  | succ n => exact walk_append _ xs y ys

/-- A name that a walk ends at is not there. -/
theorem walk_missing {follow : Place → List String → Walk} {p : Place} {c : String}
    {names rest : List String} (hfollow : ∀ q names rest, follow q names = .missing p c rest ∨
      follow q names = .dangling p c rest → d.entry (p ++ [c]) = none)
    (h : d.walk follow q names = .missing p c rest ∨ d.walk follow q names = .dangling p c rest) :
    d.entry (p ++ [c]) = none := by
  induction names generalizing q with
  | nil => rcases h with h | h <;> cases h
  | cons name names ih =>
    simp only [walk] at h
    split at h
    · exact ih h
    · cases hentry : d.entry (q ++ [name]) with
      | none =>
        rw [hentry] at h
        rcases h with h | h
        · cases h
          exact hentry
        · cases h
      | some e =>
        rw [hentry] at h
        cases e with
        | directory => exact ih h
        | link absolute target =>
          simp only at h
          cases hto : follow (if absolute then [] else q) target with
          | dir p' => rw [hto] at h; exact ih h
          | stuck => rw [hto] at h; rcases h with h | h <;> cases h
          | other p' => rw [hto] at h; cases names <;> rcases h with h | h <;> cases h
          | missing p' c' rest' =>
            rw [hto] at h
            cases names with
            | nil =>
              rcases h with h | h
              · cases h
              · cases h
                exact hfollow _ _ _ (Or.inl hto)
            | cons => rcases h with h | h <;> cases h
          | dangling p' c' rest' =>
            rw [hto] at h
            cases names with
            | nil =>
              rcases h with h | h
              · cases h
              · cases h
                exact hfollow _ _ _ (Or.inr hto)
            | cons => rcases h with h | h <;> cases h
        | _ => cases names <;> rcases h with h | h <;> cases h

theorem lead_missing {limit : ℕ} {p : Place} {c : String} {names rest : List String}
    (h : d.lead limit q names = .missing p c rest ∨ d.lead limit q names = .dangling p c rest) :
    d.entry (p ++ [c]) = none := by
  induction limit generalizing q names rest with
  | zero =>
    refine walk_missing (fun q names rest h => ?_) h
    rcases h with h | h <;> cases h
  | succ n ih => exact walk_missing (fun _ _ _ h => ih h) h

/-- A single name that is not there. -/
theorem lead_none {limit : ℕ} {c : String} (hdots : c ≠ "..") (h : d.entry (q ++ [c]) = none) :
    d.lead limit q [c] = .missing q c [] := by
  cases limit <;> simp only [lead, walk, if_neg hdots, h]

end Disk

end LocalVoice.Lib
