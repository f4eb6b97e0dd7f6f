import Mathlib.Data.Nat.Notation
import LocalVoice.Lib.Dict

/-! File trees without links: a dictionary from paths to what stands there. A tree can be unpacked
    into a directory of another one, entry by entry of its top level: what stood under the name of
    such an entry is gone, with all that was below it. -/

namespace LocalVoice.Lib

/-- A place in a file tree: the names of the directories above it, and its own name. -/
structure Path where
  parents : List String
  name : String
  deriving DecidableEq

namespace Path

/-- The components of the text of a path, as `pathlib` normalizes it. -/
def parts (s : String) : List String :=
  ((s.toList.foldr (fun c words => match words with
    | w :: ws => if c = '/' then [] :: w :: ws else (c :: w) :: ws
    | [] => []) [[]]).map String.ofList).filter fun c => c ≠ "" && c ≠ "."

/-- The sibling whose name has something appended. -/
def append (p : Path) (ext : String) : Path := { p with name := p.name ++ ext }

/-- The path of `p` in a tree that is put into the directory `dir`. -/
def under (dir : List String) (p : Path) : Path := { p with parents := dir ++ p.parents }

/-- The path relative to the directory `dir`, if it is below it. -/
def below (dir : List String) (p : Path) : Option Path :=
  if dir <+: p.parents then some { p with parents := p.parents.drop dir.length } else none

/-- The entry of the top level that the path leads through. -/
def top (p : Path) : Path :=
  match p.parents with
  | [] => p
  | d :: _ => ⟨[], d⟩

@[simp] theorem append_parents (p : Path) (ext : String) : (p.append ext).parents = p.parents := rfl

@[simp] theorem append_inj {p q : Path} {ext : String} : p.append ext = q.append ext ↔ p = q := by
  obtain ⟨d, n⟩ := p
  obtain ⟨d', n'⟩ := q
  simp [append]

theorem append_append (p : Path) (e e' : String) : (p.append e).append e' = p.append (e ++ e') := by
  simp [append, String.append_assoc]

/-- Names that end differently are different. -/
theorem append_ne {p q : Path} {e e' : String}
    (h : e.toList.getLast? ≠ e'.toList.getLast?) (he : e ≠ "") (he' : e' ≠ "") :
    p.append e ≠ q.append e' := by
  intro heq
  have hname : p.name ++ e = q.name ++ e' := congrArg Path.name heq
  have hlast := congrArg (fun s : String => s.toList.getLast?) hname
  have hne : e.toList ≠ [] := by simpa using he
  have hne' : e'.toList ≠ [] := by simpa using he'
  simp only [String.toList_append, List.getLast?_append_of_ne_nil _ hne,
    List.getLast?_append_of_ne_nil _ hne'] at hlast
  exact h hlast

@[simp] theorem under_inj {dir : List String} {p q : Path} : p.under dir = q.under dir ↔ p = q := by
  obtain ⟨d, n⟩ := p
  obtain ⟨d', n'⟩ := q
  simp [under]

@[simp] theorem below_under (dir : List String) (p : Path) : (p.under dir).below dir = some p := by
  simp [below, under]

theorem below_eq_some {dir : List String} {p q : Path} : p.below dir = some q ↔ p = q.under dir := by
  constructor
  · intro h
    unfold below at h
    split at h
    · next hpre =>
      obtain ⟨rest, hrest⟩ := hpre
      obtain ⟨d, n⟩ := p
      obtain rfl : dir ++ rest = d := hrest
      obtain rfl := Option.some.inj h
      simp [under]
    · cases h
  · rintro rfl
    exact below_under dir q

end Path

/-- What stands at a path. -/
inductive Node (β : Type) where
  | directory
  | file (content : β)
  deriving DecidableEq

/-- A file tree. -/
abbrev FileTree (β : Type) := Dict Path (Node β)

namespace FileTree
variable {β : Type}

/-- The content of the file at a path. -/
def read (t : FileTree β) (p : Path) : Option β :=
  match t.get? p with
  | some (.file b) => some b
  | _ => none

/-- `path.exists()`. -/
def exist (t : FileTree β) (p : Path) : Bool := (t.get? p).isSome

/-- `path.is_dir()`. -/
def is_dir (t : FileTree β) (p : Path) : Bool :=
  match t.get? p with
  | some .directory => true
  | _ => false

/-- Write a file. -/
def put (t : FileTree β) (p : Path) (b : β) : FileTree β := t.set p (.file b)

/-- The files of a directory. -/
def files_in (t : FileTree β) (dir : List String) : List Path :=
  (t.items.filter fun e => e.1.parents = dir && (t.read e.1).isSome).map Prod.fst

/-- The entries at the top level of `sub` are moved into the directory `dir`, each in the place of
    what stood there under its name. -/
def unpack (t : FileTree β) (dir : List String) (sub : FileTree β) : FileTree β :=
  (t.filterKeys fun p => ((p.below dir).bind fun q => sub.get? q.top).isNone).update
    (sub.items.map fun e => (e.1.under dir, e.2))

theorem read_eq_some {t : FileTree β} {p : Path} {b : β} : t.read p = some b ↔ t.get? p = some (.file b) := by
  unfold read
  split
  · next h => simp [h]
  · next h => exact ⟨fun hnone => absurd hnone.symm (Option.some_ne_none b), fun hb => absurd hb (h b)⟩

/-- Whether there is a file, and which, is read from the entry. -/
theorem read_congr {t u : FileTree β} {p q : Path} (h : t.get? p = u.get? q) : t.read p = u.read q := by
  simp only [read, h]

theorem read_put (t : FileTree β) (p q : Path) (b : β) :
    (t.put p b).read q = if q = p then some b else t.read q := by
  unfold read put
  rw [Dict.get?_set]
  by_cases h : q = p <;> simp [h]

theorem read_erase (t : FileTree β) (p q : Path) :
    FileTree.read (t.erase p) q = if q = p then none else t.read q := by
  unfold read
  rw [Dict.get?_erase]
  by_cases h : q = p <;> simp [h]

/-- A key that is moved along with its entry is looked up where it was. -/
theorem lookup_map {κ κ' ν : Type} [DecidableEq κ] [DecidableEq κ'] {f : κ → κ'}
    (hf : ∀ {i j}, f i = f j ↔ i = j) (k : κ) (l : List (κ × ν)) :
    (l.map fun e => (f e.1, e.2)).lookup (f k) = l.lookup k := by
  induction l with
  | nil => rfl
  | cons e rest ih =>
    obtain ⟨i, v⟩ := e
    simp only [List.map_cons, Dict.lookup_cons_ite, ih, hf]

/-- What stands at a path after unpacking: the entry of the tree that was unpacked, or what stood
    there, unless it went with an entry of the top level. -/
theorem get?_unpack (t : FileTree β) (dir : List String) (sub : FileTree β) (p : Path) :
    (t.unpack dir sub).get? p = match p.below dir with
      | none => t.get? p
      | some q => (sub.get? q).or (if (sub.get? q.top).isSome then none else t.get? p) := by
  have hnodup : ((sub.items.map fun e => (e.1.under dir, e.2)).map Prod.fst).Nodup := by
    rw [List.map_map]
    have hcomp : (Prod.fst ∘ fun e : Path × Node β => (e.1.under dir, e.2)) =
        Path.under dir ∘ Prod.fst := rfl
    rw [hcomp, ← List.map_map]
    exact sub.nodup.map fun a b h => Path.under_inj.1 h
  have hrev : ∀ k, (sub.items.map fun e => (e.1.under dir, e.2)).reverse.lookup k =
      (sub.items.map fun e => (e.1.under dir, e.2)).lookup k := by
    intro k
    refine Option.ext fun v => ?_
    rw [← Dict.mem_iff_lookup hnodup, ← Dict.mem_iff_lookup (by simpa using hnodup), List.mem_reverse]
  rw [unpack, Dict.get?_update, hrev, Dict.get?_filterKeys]
  cases hq : p.below dir with
  | none =>
    have hnone : (sub.items.map fun e => (e.1.under dir, e.2)).lookup p = none := by
      rw [← Option.not_isSome_iff_eq_none, Dict.lookup_isSome]
      rintro hmem
      obtain ⟨e, he, rfl⟩ := List.mem_map.1 hmem
      obtain ⟨e', -, rfl⟩ := List.mem_map.1 he
      rw [Path.below_under] at hq
      cases hq
    simp [hnone]
  | some q =>
    obtain rfl := Path.below_eq_some.1 hq
    rw [lookup_map Path.under_inj, Option.bind_some]
    show (sub.get? q).or _ = (sub.get? q).or _
    cases sub.get? q.top <;> rfl

end FileTree

end LocalVoice.Lib
