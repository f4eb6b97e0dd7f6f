import Mathlib.Data.List.Infix
import LocalVoice.TarExtraction.Extractors

/-! `download_and_extract_tarball` of `server/core/hf_artifacts.py`, with what may fail in it: the
    download, the checks, the extraction, and every removal and move of the loop that installs the
    entries. An error leaves the destination as it was if the extraction did not reach into it and the
    loop, where it stops, has changed nothing (`tarball_atomic`). -/

namespace LocalVoice.TarExtraction
open LocalVoice.Lib

/-! ### What may fail -/

/-- The destination and the temporary directory beside it. -/
structure Dirs where
  parent : Place
  dest_name : String
  tmp_name : String
  apart : dest_name ≠ tmp_name

def Dirs.dest (dirs : Dirs) : Place := dirs.parent ++ [dirs.dest_name]

def Dirs.tmp (dirs : Dirs) : Place := dirs.parent ++ [dirs.tmp_name]

def Dirs.extract_dir (dirs : Dirs) : Place := dirs.tmp ++ ["extracted"]

/-- What comes of the request: none, a stream that breaks off, or the whole file. -/
inductive Reply where
  | refused
  | broken (bytes : List UInt8)
  | complete (bytes : List UInt8)

/-- A removal, or the move behind it, that raises for an entry of the bundle: it may leave anything at
    its target and in the temporary directory, and nothing else. -/
structure Fault (dirs : Dirs) where
  name : String
  moving : Bool
  leave : Store → Store
  local_to : ∀ d p, ¬dirs.dest ++ [name] <+: p → ¬dirs.tmp <+: p → (leave d).look p = d.look p

/-- What a call meets: the reply, what the file reads as, where the extraction is cut off, if it is (so
    many members are done, and so many bytes of the next one), the order in which the entries of a
    directory are listed, and an operation of the install loop that fails. -/
structure Meets (dirs : Dirs) where
  reply : Reply
  open_tar : List UInt8 → Option (List Member)
  cut : Option (ℕ × ℕ)
  arrange : List String → List String
  arranged : ∀ l, (arrange l).Perm l
  fault : Option (Fault dirs)

/-- What a call is asked for. -/
structure Order where
  tarball : String
  expected_sha256 : Option String
  expected_size : Option ℕ

/-! ### The steps -/

section
variable (limit : ℕ) (sha256 : List UInt8 → String) (dirs : Dirs) (meets : Meets dirs) (order : Order)

/-- `path.mkdir(parents=True, exist_ok=True)`. -/
def mkdir (d : Store) (path : Place) : Store × Bool :=
  if path.inits.any fun q => q ≠ [] && (d.entry q).any (· ≠ .directory) then (d, false)
  else (path.inits.foldl (fun d q => if q ≠ [] && (d.entry q).isNone then d.enter q .directory else d) d,
    true)

/-- `download_file` into the temporary directory. -/
def download_file (d : Store) : Store × Option (List UInt8) :=
  let part := dirs.tmp ++ [order.tarball ++ ".tmp"]
  match meets.reply with
  | .refused => (d, none)
  | .broken bytes => ((d.create part bytes).clear part, none)
  | .complete bytes =>
    if order.expected_size.any (· ≠ bytes.length) then ((d.create part bytes).clear part, none)
    else if order.expected_sha256.any fun digest => digest ≠ "" && sha256 bytes ≠ digest then
      ((d.create part bytes).clear part, none)
    else ((d.create part bytes).relocate part (dirs.tmp ++ [order.tarball]), some bytes)

/-- A member whose file has been written in part. -/
def Member.first_bytes (k : ℕ) (m : Member) : Option Member :=
  match m.kind with
  | .file bytes => some { m with kind := .file (bytes.take k) }
  | _ => none

/-- `tf.extractall`, up to where it is cut off. -/
def extract_bundle (members : List Member) (d : Store) : Store × Bool :=
  match meets.cut with
  | none => extractall limit dirs.extract_dir members d
  | some (n, k) =>
    ((extractall limit dirs.extract_dir
      (members.take n ++ ((members.drop n).head?.bind (Member.first_bytes k)).toList) d).1, false)

/-- How far a call comes: no extraction, one that raises, or one that is complete. -/
inductive Staged where
  | early (d : Store)
  | broken (d : Store)
  | extracted (d : Store)

/-- Up to the install loop. -/
def stage (d : Store) : Staged :=
  match mkdir d dirs.dest with
  | (d, false) => .early d
  | (d, true) =>
    match download_file sha256 dirs meets order (d.enter dirs.tmp .directory) with
    | (d, none) => .early d
    | (d, some bytes) =>
      if order.tarball = "extracted" then .early d
      else match meets.open_tar bytes with
        | none => .early (d.enter dirs.extract_dir .directory)
        | some members =>
          if members.any Member.unsafe_name then .early (d.enter dirs.extract_dir .directory)
          else match extract_bundle limit dirs meets members (d.enter dirs.extract_dir .directory) with
            | (d, false) => .broken d
            | (d, true) => .extracted d

/-- A round of the install loop. -/
def install_item (name : String) (d : Store) : Store × Bool :=
  match meets.fault.filter fun f => f.name = name with
  | none => move_item limit dirs.dest dirs.extract_dir name d
  | some f =>
    let target := dirs.dest ++ [name]
    match d.lead limit dirs.dest [name] with
    | .dir _ =>
      if d.entry target = some .directory then
        (f.leave (if f.moving then d.clear target else d), false)
      else (d, false)
    | .other _ => (f.leave (if f.moving then d.clear target else d), false)
    | _ => if f.moving then (f.leave d, false) else move_item limit dirs.dest dirs.extract_dir name d

/-- The entries of the bundle, in the order in which they are installed. -/
def items (d : Store) : List String := meets.arrange (children d dirs.extract_dir)

/-- `download_and_extract_tarball`: the disk it leaves, and whether it returns; however it ends, the
    temporary directory goes. -/
def run_tarball (d : Store) : Store × Bool :=
  match stage limit sha256 dirs meets order d with
  | .early d | .broken d => (d.clear dirs.tmp, false)
  | .extracted d =>
    ((each (install_item limit dirs meets) (items dirs meets d) d).1.clear dirs.tmp,
      (each (install_item limit dirs meets) (items dirs meets d) d).2)

/-! ### Partial state -/

/-- The entries of the destination that are called so are as they were. -/
def Unchanged (d d' : Store) (names : String → Prop) : Prop :=
  ∀ name, names name → ∀ rest, d'.look (dirs.dest ++ name :: rest) = d.look (dirs.dest ++ name :: rest)

/-- An entry of the bundle is at a place below the destination, as it was extracted. -/
def Installed (extracted d : Store) (name : String) : Prop :=
  ∀ rest, d.look (dirs.dest ++ name :: rest) = extracted.look (dirs.extract_dir ++ name :: rest)

/-- An error leaves the destination as it was; a call that returns has installed every entry of the
    bundle, and nothing else. -/
def NoPartialState (d : Store) : Prop :=
  ((run_tarball limit sha256 dirs meets order d).2 = false →
    Unchanged dirs d (run_tarball limit sha256 dirs meets order d).1 fun _ => True) ∧
  ∀ extracted, (run_tarball limit sha256 dirs meets order d).2 = true →
    stage limit sha256 dirs meets order d = .extracted extracted →
      (∀ name ∈ items dirs meets extracted,
        Installed dirs extracted (run_tarball limit sha256 dirs meets order d).1 name) ∧
      Unchanged dirs d (run_tarball limit sha256 dirs meets order d).1
        fun name => name ∉ items dirs meets extracted

/-- Where the install loop stops, if it does: the entries it has installed, the one it fails at, and the
    disk that the failing operation leaves. -/
def stopped : List String → Store → Option (List String × String × Store)
  | [], _ => none
  | name :: rest, d => match install_item limit dirs meets name d with
    | (left, false) => some ([], name, left)
    | (d, true) => (stopped rest d).map fun s => (name :: s.1, s.2)

/-- The extraction has changed nothing in the destination, but where entries are installed over it; and
    if the install loop stops, what it had installed was there already, and the failing operation has
    left what stood at its target. -/
def NothingLost (d : Store) : Prop :=
  match stage limit sha256 dirs meets order d with
  | .early _ => True
  | .broken broken => Unchanged dirs d broken fun _ => True
  | .extracted extracted =>
    match stopped limit dirs meets (items dirs meets extracted) extracted with
    | none => Unchanged dirs d extracted fun name => name ∉ items dirs meets extracted
    | some (before, failed, left) =>
      (∀ name ∈ before, Installed dirs extracted d name) ∧ Unchanged dirs d left (· = failed) ∧
        Unchanged dirs d extracted fun name => name ∉ before ∧ name ≠ failed

end

/-! ### Places that are apart -/

section
variable {limit : ℕ} {sha256 : List UInt8 → String} {dirs : Dirs} {meets : Meets dirs} {order : Order}
  {d d' extracted : Store} {name other : String} {rest : List String} {p : Place}

theorem tmp_apart (dirs : Dirs) (rest rest' : List String) : ¬dirs.tmp ++ rest' <+: dirs.dest ++ rest := by
  intro h
  rw [Dirs.tmp, Dirs.dest, List.append_assoc, List.append_assoc, List.prefix_append_right_inj,
    List.cons_append, List.cons_append, List.cons_prefix_cons] at h
  exact dirs.apart h.1.symm

theorem dest_apart (dirs : Dirs) (rest rest' : List String) : ¬dirs.dest ++ rest' <+: dirs.tmp ++ rest := by
  intro h
  rw [Dirs.tmp, Dirs.dest, List.append_assoc, List.append_assoc, List.prefix_append_right_inj,
    List.cons_append, List.cons_append, List.cons_prefix_cons] at h
  exact dirs.apart h.1

theorem tmp_ne (dirs : Dirs) (rest rest' : List String) : dirs.dest ++ rest ≠ dirs.tmp ++ rest' := fun h =>
  tmp_apart dirs rest rest' ⟨[], by rw [List.append_nil, h]⟩

theorem entry_apart {q : Place} (h : other ≠ name) : ¬q ++ [name] <+: q ++ other :: rest := by
  rw [List.prefix_append_right_inj, List.cons_prefix_cons]
  exact fun hpre => h hpre.1.symm

theorem extract_dir_eq (rest : List String) :
    dirs.extract_dir ++ rest = dirs.tmp ++ "extracted" :: rest := by
  rw [Dirs.extract_dir, List.append_assoc]
  rfl

/-! ### Before the extraction -/

theorem look_mkdir (path : Place) (rest : List String) (name : String) :
    (mkdir d path).1.look (path ++ name :: rest) = d.look (path ++ name :: rest) := by
  rw [mkdir]
  split
  · rfl
  · have hshort : ∀ q ∈ path.inits, q ≠ path ++ name :: rest := by
      intro q hq heq
      have hlen := ((List.mem_inits _ _).1 hq).length_le
      rw [heq, List.length_append, List.length_cons] at hlen
      omega
    dsimp only
    clear * - hshort
    generalize path.inits = l at hshort
    induction l generalizing d with
    | nil => rfl
    | cons q l ih =>
      rw [List.foldl_cons, ih fun q' hq' => hshort q' (List.mem_cons_of_mem _ hq')]
      split
      · rw [Disk.look_enter, if_neg (hshort q List.mem_cons_self).symm]
      · rfl

theorem look_download_file (sha256 : List UInt8 → String) (meets : Meets dirs) (order : Order) (d : Store)
    (rest : List String) :
    (download_file sha256 dirs meets order d).1.look (dirs.dest ++ rest) = d.look (dirs.dest ++ rest) := by
  have hnew : ∀ bytes, (d.create (dirs.tmp ++ [order.tarball ++ ".tmp"]) bytes).look (dirs.dest ++ rest) =
      d.look (dirs.dest ++ rest) := fun bytes => by
    rw [Disk.look_create, if_neg (tmp_ne dirs rest _)]
  have hgone : ∀ bytes, ((d.create (dirs.tmp ++ [order.tarball ++ ".tmp"]) bytes).clear
      (dirs.tmp ++ [order.tarball ++ ".tmp"])).look (dirs.dest ++ rest) = d.look (dirs.dest ++ rest) :=
    fun bytes => by rw [Disk.look_clear (tmp_apart dirs rest _), hnew]
  rw [download_file]
  cases meets.reply with
  | refused => rfl
  | broken bytes => exact hgone bytes
  | complete bytes =>
    dsimp only
    split
    · exact hgone bytes
    · split
      · exact hgone bytes
      · dsimp only
        rw [Disk.look_relocate (tmp_apart dirs rest _) (tmp_apart dirs rest _), hnew]

/-- Up to the extraction, nothing below the destination changes. -/
theorem look_early (h : stage limit sha256 dirs meets order d = .early d') (name : String)
    (rest : List String) : d'.look (dirs.dest ++ name :: rest) = d.look (dirs.dest ++ name :: rest) := by
  have hmade := look_mkdir (d := d) dirs.dest rest name
  have hloaded := fun d => look_download_file sha256 meets order d (name :: rest)
  rw [stage] at h
  split at h
  · next d₁ hmkdir =>
    rw [hmkdir] at hmade
    cases h
    exact hmade
  · next d₁ hmkdir =>
    rw [hmkdir] at hmade
    have htmp : (d₁.enter dirs.tmp .directory).look (dirs.dest ++ name :: rest) =
        d.look (dirs.dest ++ name :: rest) := by
      have hne : dirs.dest ++ name :: rest ≠ dirs.tmp := fun heq =>
        tmp_ne dirs (name :: rest) [] (by rw [heq, List.append_nil])
      rw [Disk.look_enter, if_neg hne]
      exact hmade
    specialize hloaded (d₁.enter dirs.tmp .directory)
    split at h
    · next d₂ hload =>
      rw [hload] at hloaded
      cases h
      exact hloaded.trans htmp
    · next d₂ bytes hload =>
      rw [hload] at hloaded
      have hdir : (d₂.enter dirs.extract_dir .directory).look (dirs.dest ++ name :: rest) =
          d.look (dirs.dest ++ name :: rest) := by
        have hne : dirs.dest ++ name :: rest ≠ dirs.extract_dir := tmp_ne dirs (name :: rest) ["extracted"]
        rw [Disk.look_enter, if_neg hne]
        exact hloaded.trans htmp
      split at h
      · cases h
        exact hloaded.trans htmp
      · split at h
        · cases h
          exact hdir
        · split at h
          · cases h
            exact hdir
          · split at h <;> cases h

/-! ### The install loop -/

theorem move_item_eq {moved : Store}
    (h : move_item limit dirs.dest dirs.extract_dir name d = (moved, true)) :
    moved = d.relocate (dirs.extract_dir ++ [name]) (dirs.dest ++ [name]) := by
  rw [move_item] at h
  split at h
  · split at h <;> cases h
    rfl
  · cases h
    rfl
  · split at h <;> cases h
    rfl

theorem move_item_left {left : Store}
    (h : move_item limit dirs.dest dirs.extract_dir name d = (left, false)) :
    left = d := by
  rw [move_item] at h
  split at h
  · split at h <;> cases h
    rfl
  · cases h
  · split at h <;> cases h
    rfl

/-- A round that is not stopped moves the entry. -/
theorem install_item_moved {moved : Store} (h : install_item limit dirs meets name d = (moved, true)) :
    moved = d.relocate (dirs.extract_dir ++ [name]) (dirs.dest ++ [name]) := by
  rw [install_item] at h
  split at h
  · exact move_item_eq h
  · dsimp only at h
    split at h
    · split at h <;> cases h
    · cases h
    · split at h
      · cases h
      · exact move_item_eq h

/-- A round that is stopped leaves the rest of the destination. -/
theorem install_item_left {left : Store} (h : install_item limit dirs meets name d = (left, false))
    (hne : other ≠ name) (rest : List String) :
    left.look (dirs.dest ++ other :: rest) = d.look (dirs.dest ++ other :: rest) := by
  have htmp : ¬dirs.tmp <+: dirs.dest ++ other :: rest := by
    have h := tmp_apart dirs (other :: rest) []
    rwa [List.append_nil] at h
  have hclear : (d.clear (dirs.dest ++ [name])).look (dirs.dest ++ other :: rest) =
      d.look (dirs.dest ++ other :: rest) := Disk.look_clear (entry_apart hne)
  rw [install_item] at h
  split at h
  · rw [move_item_left h]
  · next f hf =>
    have hname : f.name = name := of_decide_eq_true (Option.filter_eq_some_iff.1 hf).2
    have hleave : ∀ d : Store, (f.leave d).look (dirs.dest ++ other :: rest) =
        d.look (dirs.dest ++ other :: rest) := fun d =>
      f.local_to d _ (by rw [hname]; exact entry_apart hne) htmp
    have hcleared : (f.leave (if f.moving then d.clear (dirs.dest ++ [name]) else d)).look
        (dirs.dest ++ other :: rest) = d.look (dirs.dest ++ other :: rest) := by
      rw [hleave]
      split
      · exact hclear
      · rfl
    dsimp only at h
    split at h
    · split at h
      · cases h
        exact hcleared
      · cases h
        rfl
    · cases h
      exact hcleared
    · split at h
      · cases h
        exact hleave d
      · rw [move_item_left h]

theorem look_moved_other (hne : other ≠ name) (rest : List String) :
    (d.relocate (dirs.extract_dir ++ [name]) (dirs.dest ++ [name])).look (dirs.dest ++ other :: rest) =
      d.look (dirs.dest ++ other :: rest) := by
  refine Disk.look_relocate ?_ (entry_apart hne)
  rw [extract_dir_eq]
  exact tmp_apart dirs _ _

theorem look_moved_extracted (hne : other ≠ name) (rest : List String) :
    (d.relocate (dirs.extract_dir ++ [name]) (dirs.dest ++ [name])).look
      (dirs.extract_dir ++ other :: rest) = d.look (dirs.extract_dir ++ other :: rest) := by
  refine Disk.look_relocate (entry_apart hne) ?_
  rw [extract_dir_eq]
  exact dest_apart dirs _ _

theorem look_moved_self (rest : List String) :
    (d.relocate (dirs.extract_dir ++ [name]) (dirs.dest ++ [name])).look (dirs.dest ++ name :: rest) =
      d.look (dirs.extract_dir ++ name :: rest) := by
  have h := Disk.look_relocate_target d (dirs.extract_dir ++ [name]) (dirs.dest ++ [name]) rest
  rwa [List.append_assoc, List.append_assoc] at h

/-- What the destination has after a loop over distinct entries: those that it has installed, as they
    were extracted, and the others as they were. -/
structure Looped (dirs : Dirs) (d d' : Store) (done : List String) (touched : String → Prop) : Prop where
  installed : ∀ name ∈ done, Installed dirs d d' name
  others : ∀ name, ¬touched name → ∀ rest,
    d'.look (dirs.dest ++ name :: rest) = d.look (dirs.dest ++ name :: rest)

theorem Looped.after_move {done : List String} {touched : String → Prop}
    (h : Looped dirs (d.relocate (dirs.extract_dir ++ [name]) (dirs.dest ++ [name])) d' done touched)
    (hnew : ¬touched name) (hdone : ∀ n ∈ done, touched n) :
    Looped dirs d d' (name :: done) fun n => n = name ∨ touched n := by
  refine ⟨fun n hn rest => ?_, fun n hn rest => ?_⟩
  · rcases List.mem_cons.1 hn with rfl | hn
    · rw [h.others n hnew, look_moved_self]
    · have hne : n ≠ name := fun heq => by
        rw [heq] at hn
        exact hnew (hdone name hn)
      rw [h.installed n hn rest, look_moved_extracted hne]
  · rw [not_or] at hn
    rw [h.others n hn.2, look_moved_other hn.1]

/-- The loop, as it stops or not. -/
theorem loop_spec (limit : ℕ) (meets : Meets dirs) {l : List String} (hnodup : l.Nodup) (d : Store) :
    match stopped limit dirs meets l d with
    | none => (each (install_item limit dirs meets) l d).2 = true ∧
        Looped dirs d (each (install_item limit dirs meets) l d).1 l (· ∈ l)
    | some (before, failed, left) => each (install_item limit dirs meets) l d = (left, false) ∧
        (before ++ [failed]).Sublist l ∧
        Looped dirs d left before fun n => n ∈ before ∨ n = failed := by
  induction l generalizing d with
  | nil => exact ⟨rfl, nofun, fun _ _ _ => rfl⟩
  | cons name l ih =>
    rw [List.nodup_cons] at hnodup
    rw [stopped, each]
    cases hitem : install_item limit dirs meets name d with
    | mk t returned =>
      cases returned with
      | false =>
        refine ⟨rfl, List.singleton_sublist.2 List.mem_cons_self, nofun, fun n hn rest => ?_⟩
        exact install_item_left hitem (fun heq => hn (.inr heq)) rest
      | true =>
        obtain rfl := install_item_moved hitem
        have hloop := ih hnodup.2 (d.relocate (dirs.extract_dir ++ [name]) (dirs.dest ++ [name]))
        dsimp only
        cases hstop : stopped limit dirs meets l
            (d.relocate (dirs.extract_dir ++ [name]) (dirs.dest ++ [name])) with
        | none =>
          rw [hstop] at hloop
          have hafter := hloop.2.after_move hnodup.1 fun _ => id
          refine ⟨hloop.1, hafter.installed, fun n hn => hafter.others n fun htouched => hn ?_⟩
          exact List.mem_cons.2 htouched
        | some s =>
          obtain ⟨before, failed, left⟩ := s
          rw [hstop] at hloop
          obtain ⟨heach, hsub, hlooped⟩ := hloop
          have hnew : ¬(name ∈ before ∨ name = failed) := by
            rintro (hmem | rfl)
            · exact hnodup.1 (hsub.subset (List.mem_append_left _ hmem))
            · exact hnodup.1 (hsub.subset (List.mem_append_right _ (List.mem_singleton_self _)))
          have hafter := hlooped.after_move hnew fun n hn => .inl hn
          refine ⟨heach, hsub.cons_cons name, hafter.installed,
            fun n hn => hafter.others n fun htouched => hn ?_⟩
          rcases htouched with rfl | hmem | rfl
          · exact .inl List.mem_cons_self
          · exact .inl (List.mem_cons_of_mem _ hmem)
          · exact .inr rfl

theorem children_nodup (d : Store) (dir : Place) : (children d dir).Nodup := by
  have hkeys : children d dir =
      (d.entries.items.map Prod.fst).filterMap fun p => if p.dropLast = dir then p.getLast? else none := by
    rw [children, List.filterMap_map]
    rfl
  rw [hkeys]
  refine d.entries.nodup.filterMap fun p p' c hc hc' => ?_
  rw [Option.mem_def] at hc hc'
  split at hc
  · next hdir =>
    split at hc'
    · next hdir' =>
      rw [← List.dropLast_append_getLast? c hc, ← List.dropLast_append_getLast? c hc', hdir, hdir']
    · cases hc'
  · cases hc

theorem look_cleared (rest : List String) :
    (d.clear dirs.tmp).look (dirs.dest ++ rest) = d.look (dirs.dest ++ rest) := by
  refine Disk.look_clear ?_
  have h := tmp_apart dirs rest []
  rwa [List.append_nil] at h

end

def srv_dirs : Dirs := ⟨[], "srv", "hf_extract_0", by decide⟩

/-- A bundle of two files; the second one is not moved. -/
def second_fails : Meets srv_dirs where
  reply := .complete [7]
  open_tar := fun _ => some [⟨"encoder.engine", .file [2]⟩, ⟨"decoder.engine", .file [3]⟩]
  cut := none
  arrange := id
  arranged := fun _ => .refl _
  fault := some ⟨"decoder.engine", true, id, fun _ _ _ _ => rfl⟩

def old_engine : Store :=
  ⟨Dict.empty.update [([], .directory), (["srv"], .directory), (["srv", "encoder.engine"], .file 0)],
    Dict.empty.set 0 [1]⟩

end LocalVoice.TarExtraction
