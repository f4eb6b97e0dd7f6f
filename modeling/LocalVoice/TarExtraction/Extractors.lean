import LocalVoice.Lib.Each
import LocalVoice.Lib.Files
import LocalVoice.Lib.Links
import LocalVoice.Lib.PyText

/-! Extraction of the members of a tar archive, as `tarfile` does it without a filter: the directories
    above a member are made, links that are there are followed, and the member is put in its place.
    `Lands` says where that is, in the disk the member is extracted to.

        a ──▶ /etc          member "a", a link: it is put below the target
        a/passwd            member "a/passwd": put in /etc -/

namespace LocalVoice.TarExtraction
open LocalVoice.Lib

/-! ### Members -/

inductive Kind where
  | directory
  | file (bytes : List UInt8)
  | symlink (linkname : String)
  | hardlink (linkname : String)
  | special

structure Member where
  name : String
  kind : Kind

abbrev Store := Disk (List UInt8)

/-- What is put in the place of a member: `node` is a special file, or one more name of an entry. -/
inductive Payload where
  | directory
  | file (bytes : List UInt8)
  | symlink (absolute : Bool) (target : List String)
  | node (e : Entry)

/-- `os.path.normpath`, of the components. -/
def normpath (comps : List String) : List String :=
  comps.foldl (fun at_dir c =>
    if c = ".." && at_dir.getLast?.any (· ≠ "..") then at_dir.dropLast else at_dir ++ [c]) []

def same_name (a b : String) : Bool :=
  PyText.startswith a "/" = PyText.startswith b "/" && normpath (Path.parts a) = normpath (Path.parts b)

section
variable (limit : ℕ) (dest : Place)

/-- The entry that the names lead to, itself not followed. -/
def lstat (d : Store) (start : Place) (comps : List String) : Option Entry :=
  match comps.getLast? with
  | none | some ".." => some .directory
  | some c => match d.lead limit start comps.dropLast with
    | .dir q => d.entry (q ++ [c])
    | _ => none

/-- `os.link` of what the link name leads to, if that exists; the inner `none` is an exception. -/
def link_to (d : Store) (linkname : String) : Option (Option Payload) :=
  let start := if PyText.startswith linkname "/" then [] else dest
  match d.lead limit start (Path.parts linkname) with
  | .dir _ | .other _ => some (match lstat limit d start (Path.parts linkname) with
    | none | some .directory => none
    | some e => some (.node e))
  | _ => none

/-- A hard link, or what the last member before it with the name of its target brings; `none` is an
    exception. -/
def chase (d : Store) : List Member → String → Option Payload
  | [], linkname => (link_to limit dest d linkname).getD none
  | m :: earlier, linkname => match link_to limit dest d linkname with
    | some payload => payload
    | none =>
      if same_name m.name linkname then match m.kind with
        | .directory => some .directory
        | .file bytes => some (.file bytes)
        | .symlink target => some (.symlink (PyText.startswith target "/") (Path.parts target))
        | .special => some (.node .special)
        | .hardlink target => chase d earlier target
      else chase d earlier linkname

/-- What a member brings, after the ones before it, the last one first. -/
def brings (d : Store) (earlier : List Member) : Kind → Option Payload
  | .directory => some .directory
  | .file bytes => some (.file bytes)
  | .symlink target => some (.symlink (PyText.startswith target "/") (Path.parts target))
  | .special => some (.node .special)
  | .hardlink target => chase limit dest d earlier target

/-! ### Extraction -/

/-- A payload where nothing is. -/
def put_new (d : Store) (p : Place) : Payload → Store
  | .directory => d.enter p .directory
  | .file bytes => d.create p bytes
  | .symlink absolute target => d.enter p (.link absolute target)
  | .node e => d.enter p e

/-- A payload where an entry is: a file is opened for writing, a link takes the place of anything but
    a directory, and the others need a free place. -/
def put_over (d : Store) (q : Place) (c : String) (e : Entry) : Payload → Store × Bool
  | .directory => (d, match d.lead limit q [c] with | .dir _ => true | _ => false)
  | .file bytes => match d.lead limit q [c] with
    | .other p => match d.entry p with
      | some (.file i) => (d.overwrite i bytes, true)
      | _ => (d, true)
    | .dangling p name [] => (d.create (p ++ [name]) bytes, true)
    | _ => (d, false)
  | .symlink absolute target =>
    if e = .directory then (d, false) else (d.enter (q ++ [c]) (.link absolute target), true)
  | .node _ => (d, false)

/-- The directories above the member, and the member; no component is `..`. -/
def extract_at (payload : Store → Option Payload) (dirs : List String) (base : String) (d : Store) :
    Store × Bool :=
  match d.lead limit dest dirs with
  | .dir q => match payload d with
    | none => (d, false)
    | some x => match d.entry (q ++ [base]) with
      | none => (put_new d (q ++ [base]) x, true)
      | some e => put_over limit d q base e x
  | .missing q c rest => match payload (d.make_dirs q (c :: rest)) with
    | none => (d.make_dirs q (c :: rest), false)
    | some x => (put_new (d.make_dirs q (c :: rest)) (q ++ [c] ++ rest ++ [base]) x, true)
  | _ => (d, false)

def Kind.is_directory : Kind → Bool
  | .directory => true
  | _ => false

/-- One member, with the ones before it. -/
def extract_member (m : List Member × Member) (d : Store) : Store × Bool :=
  match (Path.parts m.2.name).getLast? with
  | none => (d, m.2.kind.is_directory)
  | some base => extract_at limit dest (fun d => brings limit dest d m.1 m.2.kind)
      (Path.parts m.2.name).dropLast base d

end

/-- Each member with the ones before it, the last one first. -/
def with_earlier : List Member → List Member → List (List Member × Member)
  | _, [] => []
  | earlier, m :: rest => (earlier, m) :: with_earlier (m :: earlier) rest

/-! ### Where a member lands -/

section
variable (limit : ℕ) (dest : Place) (inside : Place → Prop)

/-- Over an entry: a file is created inside, or is there with the same content, or has no name that
    is not inside; a link is put inside, or is there already. -/
def lands_over (d : Store) (q : Place) (c : String) (e : Entry) : Payload → Prop
  | .directory | .node _ => True
  | .file bytes => match d.lead limit q [c] with
    | .other p => ∀ i, d.entry p = some (.file i) →
        d.contents.get? i = some bytes ∨ ∀ p', d.entry p' = some (.file i) → inside p'
    | .dangling p name [] => inside (p ++ [name])
    | _ => True
  | .symlink absolute target => e = .directory ∨ e = .link absolute target ∨ inside (q ++ [c])

/-- The first thing that extraction makes or changes is inside. -/
def lands_at (payload : Store → Option Payload) (dirs : List String) (base : String) (d : Store) :
    Prop :=
  match d.lead limit dest dirs with
  | .dir q => ∀ x, payload d = some x → match d.entry (q ++ [base]) with
    | none => inside (q ++ [base])
    | some e => lands_over limit inside d q base e x
  | .missing q c _ => inside (q ++ [c])
  | _ => True

def Lands (m : List Member × Member) (d : Store) : Prop :=
  match (Path.parts m.2.name).getLast? with
  | none => True
  | some base => lands_at limit dest inside (fun d => brings limit dest d m.1 m.2.kind)
      (Path.parts m.2.name).dropLast base d

end

section
variable {limit : ℕ} {dest : Place} {inside : Place → Prop} {d : Store} {p q : Place}

theorem look_put_new {x : Payload} (h : p ≠ q) : (put_new d q x).look p = d.look p := by
  cases x with
  | file bytes => rw [put_new, Disk.look_create, if_neg h]
  | directory => rw [put_new, Disk.look_enter, if_neg h]
  | symlink absolute target => rw [put_new, Disk.look_enter, if_neg h]
  | node e => rw [put_new, Disk.look_enter, if_neg h]

theorem look_put_new_self (x : Payload) : (put_new d q x).look q ≠ none := by
  cases x with
  | file bytes =>
    rw [put_new, Disk.look_create, if_pos rfl]
    simp
  | directory =>
    rw [put_new, Disk.look_enter, if_pos rfl]
    simp
  | symlink absolute target =>
    rw [put_new, Disk.look_enter, if_pos rfl]
    simp
  | node e =>
    rw [put_new, Disk.look_enter, if_pos rfl]
    simp

theorem look_of_entry (h : d.entry p = none) : d.look p = none := by
  rw [Disk.look, h]
  rfl

theorem put_new_iff {x : Payload} (h : d.entry p = none) :
    d.Confined inside (put_new d p x) ↔ inside p := by
  refine Disk.confined_iff_inside (fun q hq => look_put_new hq) ?_
  rw [look_of_entry h]
  exact look_put_new_self x

theorem put_over_iff {c : String} {e : Entry} {x : Payload} (he : d.entry (q ++ [c]) = some e) :
    d.Confined inside (put_over limit d q c e x).1 ↔ lands_over limit inside d q c e x := by
  cases x with
  | directory => exact iff_of_true (Disk.confined_refl d) trivial
  | node e' => exact iff_of_true (Disk.confined_refl d) trivial
  | symlink absolute target =>
    simp only [put_over, lands_over]
    by_cases hdir : e = .directory
    · rw [if_pos hdir]
      exact iff_of_true (Disk.confined_refl d) (Or.inl hdir)
    · rw [if_neg hdir]
      by_cases hsame : e = .link absolute target
      · refine iff_of_true (fun p hp => ?_) (Or.inr (Or.inl hsame))
        rw [Disk.look_enter]
        split
        · next heq =>
          rw [heq, Disk.look, he, hsame]
          rfl
        · rfl
      · simp only [hdir, hsame, false_or]
        refine Disk.confined_iff_inside (fun p hp => ?_) ?_
        · rw [Disk.look_enter, if_neg hp]
        · rw [Disk.look_enter, if_pos rfl, Disk.look, he]
          intro heq
          have hseen : Seen.link absolute target = d.seen e := Option.some.inj heq
          cases e with
          | link absolute' target' =>
            obtain ⟨rfl, rfl⟩ := Seen.link.inj hseen
            exact hsame rfl
          | _ => cases hseen
  | file bytes =>
    simp only [put_over, lands_over]
    cases hlead : d.lead limit q [c] with
    | dir p => exact iff_of_true (Disk.confined_refl d) trivial
    | missing p name rest => exact iff_of_true (Disk.confined_refl d) trivial
    | stuck => exact iff_of_true (Disk.confined_refl d) trivial
    | dangling p name rest =>
      cases rest with
      | cons => exact iff_of_true (Disk.confined_refl d) trivial
      | nil => exact put_new_iff (x := .file bytes) (Disk.lead_missing (Or.inr hlead))
    | other p =>
      simp only
      split
      · next i hi =>
        simp only [hi, Option.some.injEq, Entry.file.injEq, forall_eq']
        constructor
        · intro h
          by_cases hsame : d.contents.get? i = some bytes
          · exact Or.inl hsame
          · refine Or.inr fun p' hp' => ?_
            by_contra hout
            have hlook := h p' hout
            rw [Disk.look_overwrite, if_pos hp', Disk.look, hp', Option.map_some, Disk.seen] at hlook
            exact hsame (Seen.file.inj (Option.some.inj hlook)).symm
        · intro h p' hp'
          rw [Disk.look_overwrite]
          split
          · next hi' =>
            rcases h with hsame | hin
            · rw [Disk.look, hi', Option.map_some, Disk.seen, hsame]
            · exact absurd (hin p' hi') hp'
          · rfl
      · next hno => exact iff_of_true (Disk.confined_refl d) fun i hi => absurd hi (hno i)

theorem extract_at_iff (hin : ∀ p rest, inside p → inside (p ++ rest))
    {payload : Store → Option Payload} {dirs : List String} {base : String} :
    d.Confined inside (extract_at limit dest payload dirs base d).1 ↔
      lands_at limit dest inside payload dirs base d := by
  unfold extract_at lands_at
  cases hlead : d.lead limit dest dirs with
  | other q => exact iff_of_true (Disk.confined_refl d) trivial
  | dangling q c rest => exact iff_of_true (Disk.confined_refl d) trivial
  | stuck => exact iff_of_true (Disk.confined_refl d) trivial
  | dir q =>
    simp only
    cases payload d with
    | none => exact iff_of_true (Disk.confined_refl d) fun x hx => by cases hx
    | some x =>
      simp only [Option.some.injEq, forall_eq']
      cases he : d.entry (q ++ [base]) with
      | none => exact put_new_iff he
      | some e => exact put_over_iff he
  | missing q c rest =>
    have hnone : d.look (q ++ [c]) = none := look_of_entry (Disk.lead_missing (Or.inl hlead))
    have hbelow : ∀ p, ¬ inside p → inside (q ++ [c]) → ¬ q ++ [c] <+: p := by
      rintro p hp hqc ⟨rest, rfl⟩
      exact hp (hin _ rest hqc)
    simp only
    cases payload (d.make_dirs q (c :: rest)) with
    | none =>
      constructor
      · intro h
        by_contra hout
        have hlook := h (q ++ [c]) hout
        rw [Disk.look_make_dirs_first, hnone] at hlook
        cases hlook
      · intro hqc p hp
        exact Disk.look_make_dirs (hbelow p hp hqc)
    | some x =>
      constructor
      · intro h
        by_contra hout
        have hlook := h (q ++ [c]) hout
        rw [look_put_new, Disk.look_make_dirs_first, hnone] at hlook
        · cases hlook
        · intro heq
          have hlen := congrArg List.length heq
          simp at hlen
      · intro hqc p hp
        rw [look_put_new]
        · exact Disk.look_make_dirs (hbelow p hp hqc)
        · rintro rfl
          refine hbelow _ hp hqc ?_
          rw [List.append_assoc]
          exact List.prefix_append _ _

/-- Extracting one member is confined if and only if it lands inside. -/
theorem extract_member_iff (hin : ∀ p rest, inside p → inside (p ++ rest))
    (m : List Member × Member) :
    d.Confined inside (extract_member limit dest m d).1 ↔ Lands limit dest inside m d := by
  unfold extract_member Lands
  cases (Path.parts m.2.name).getLast? with
  | none => exact iff_of_true (Disk.confined_refl d) trivial
  | some base => exact extract_at_iff hin

end

/-! The three extractors of the server: `_safe_extract` of `server/core/qwen3_artifact_downloader.py`,
    which refuses links, and the two that check the names of the members and leave the rest to
    `tarfile`, in `server/core/model_downloader.py` and `server/core/hf_artifacts.py`. -/

def Member.unsafe_name (m : Member) : Bool :=
  PyText.startswith m.name "/" || ".." ∈ Path.parts m.name

section
variable (limit : ℕ) (dest : Place)

/-! ### `_safe_extract` -/

/-- `path.resolve(strict=False)`; what cannot be walked has no place. -/
def resolve (d : Store) (start : Place) (comps : List String) : Option Place :=
  match d.lead limit start comps with
  | .dir q | .other q => some q
  | .missing q c rest => some (q ++ c :: rest)
  | .dangling q c rest =>
    some (rest.foldl (fun p c => if c = ".." then p.dropLast else p ++ [c]) (q ++ [c]))
  | .stuck => none

/-- A member that is a directory or a file. -/
def Kind.plain : Kind → Bool
  | .directory | .file _ => true
  | _ => false

def safe_member (m : Member) (d : Store) : Store × Bool :=
  if m.unsafe_name || !m.kind.plain then (d, false)
  else match resolve limit d dest (Path.parts m.name) with
    | none => (d, false)
    | some r => if dest.isPrefixOf r then extract_member limit dest ([], m) d else (d, false)

def safe_extract (members : List Member) (d : Store) : Store × Bool :=
  each (safe_member limit dest) members d

/-! ### `tarfile.extractall` after a check of the names -/

def extractall (members : List Member) (d : Store) : Store × Bool :=
  each (extract_member limit dest) (with_earlier [] members) d

/-- `_download_and_extract`, from the verified archive on. -/
def download_and_extract (members : List Member) (d : Store) : Store × Bool :=
  if members.any Member.unsafe_name then (d, false) else extractall limit dest members d

/-! ### `download_and_extract_tarball` -/

def children (d : Store) (dir : Place) : List String :=
  d.entries.items.filterMap fun e => if e.1.dropLast = dir then e.1.getLast? else none

/-- One item is moved into the destination, in the place of what is there: a directory goes with all
    that is in it, but not through a link, and no directory is moved over a link that leads nowhere. -/
def move_item (extract_dir : Place) (name : String) (d : Store) : Store × Bool :=
  match d.lead limit dest [name] with
  | .dir _ =>
    if d.entry (dest ++ [name]) = some .directory then
      (d.relocate (extract_dir ++ [name]) (dest ++ [name]), true)
    else (d, false)
  | .other _ => (d.relocate (extract_dir ++ [name]) (dest ++ [name]), true)
  | _ =>
    if (d.entry (dest ++ [name])).isSome && d.entry (extract_dir ++ [name]) = some .directory then
      (d, false)
    else (d.relocate (extract_dir ++ [name]) (dest ++ [name]), true)

variable (tmp : Place) (tarball : String) (archive : List UInt8)

/-- The temporary directory, with the downloaded tarball. -/
def fetch (d : Store) : Store := (d.enter tmp .directory).create (tmp ++ [tarball]) archive

/-- An empty directory beside it. -/
def prepare (d : Store) : Store := (fetch tmp tarball archive d).enter (tmp ++ ["extracted"]) .directory

def move_items (extract_dir : Place) (d : Store) : Store × Bool :=
  each (move_item limit dest extract_dir) (children d extract_dir) d

/-- `download_and_extract_tarball`, from the downloaded tarball on; however it ends, the temporary
    directory goes. -/
def download_and_extract_tarball (members : List Member) (d : Store) : Store × Bool :=
  if tarball = "extracted" then
    -- the directory cannot be made
    ((fetch tmp tarball archive d).clear tmp, false)
  else if members.any Member.unsafe_name then ((prepare tmp tarball archive d).clear tmp, false)
  else match extractall limit (tmp ++ ["extracted"]) members (prepare tmp tarball archive d) with
    | (d', false) => (d'.clear tmp, false)
    | (d', true) => ((move_items limit dest (tmp ++ ["extracted"]) d').1.clear tmp,
        (move_items limit dest (tmp ++ ["extracted"]) d').2)

end

end LocalVoice.TarExtraction
