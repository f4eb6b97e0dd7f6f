import LocalVoice.EngineResolver.Sidecars
import LocalVoice.Lib.Each

/-! The provisioners of a flat manifest: `ensure_moss_artifacts` and `ensure_edgellm_v090_artifacts`
    over `server/core/artifact_provision.py`, and `ensure_rk_artifacts`. All of them go through the
    manifest, leave a destination that has its declared hash, and download the others. The first two
    check a download under a staged name and then move it over the destination; the third moves it
    first.

        <dest>.staged.tmp ──▶ <dest>.staged ──check──▶ <dest>
        <dest>.tmp ──▶ <dest> ──check──▶ unlinked if it is wrong -/

namespace LocalVoice.ArtifactProvision
open LocalVoice.Lib LocalVoice.EngineResolver

/-- An item of a manifest; a missing hash is null. -/
structure Item where
  rel : Path
  dest_key : String
  sha256 : Json
  md5 : Json
  optional : Bool

/-- What the download of an item brings: a payload; an error, of the provisioner's own class or not,
    that may leave something under the name the payload is written under; or no directory for it. -/
inductive Payload where
  | bytes (f : File)
  | failed (left : Option File) (own_error : Bool)
  | no_directory

/-- How an installation ends. -/
inductive Ending where
  | installed
  | own_error
  | other_error
  deriving DecidableEq

def staged_path (dest : Path) : Path := dest.append ".staged"

/-- `dest.with_suffix(dest.suffix + ".tmp")`. -/
def part_path (dest : Path) : Path := dest.append ".tmp"

/-- `path.unlink(missing_ok=True)`; a directory stays. -/
def unlink (t : FileTree File) (p : Path) : FileTree File := if t.is_dir p then t else t.erase p

/-- What a failed download leaves under its name. -/
def leave (t : FileTree File) (p : Path) : Option File → FileTree File
  | none => unlink t p
  | some f => t.put p f

section
variable (sha256 md5 : List UInt8 → String)

/-- The hashes that the item declares, of these bytes. -/
def Item.check_hashes (item : Item) (bytes : List UInt8) : Bool :=
  if item.sha256.truthy then .str (sha256 bytes) = item.sha256
  else if item.md5.truthy then .str (md5 bytes) = item.md5
  else true

/-- The item declares a hash, and these bytes have it. -/
def Item.Declares (item : Item) (bytes : List UInt8) : Prop :=
  (item.sha256.truthy || item.md5.truthy) = true ∧ item.check_hashes sha256 md5 bytes = true

/-- `verify`; `none` is an exception, from reading a directory. -/
def verify (t : FileTree File) (dest : Path) (item : Item) : Option Bool :=
  if t.exist dest then
    if item.sha256.truthy || item.md5.truthy then
      (t.read dest).map fun f => item.check_hashes sha256 md5 f.bytes
    else some true
  else some false

/-- `install_verified` with the download by `curl_download`. -/
def install_verified (t : FileTree File) (dest : Path) (item : Item) : Payload → FileTree File × Ending
  | .no_directory => (t, .other_error)
  | .failed left own_error =>
    (unlink (leave t (part_path (staged_path dest)) left) (staged_path dest),
      if own_error then .own_error else .other_error)
  | .bytes f =>
    if t.is_dir (staged_path dest) then (t.put (part_path (staged_path dest)) f, .other_error)
    else if item.check_hashes sha256 md5 f.bytes then
      (FileTree.put ((t.erase (part_path (staged_path dest))).erase (staged_path dest)) dest f, .installed)
    else ((t.erase (part_path (staged_path dest))).erase (staged_path dest), .own_error)

/-- One item of `ensure_moss_artifacts` and `ensure_edgellm_v090_artifacts`. -/
def ensure_item (dest : Item → Path) (e : Item × Payload) (t : FileTree File) : FileTree File × Bool :=
  match verify sha256 md5 t (dest e.1) e.1 with
  | none => (t, false)
  | some true => (t, true)
  | some false => match install_verified sha256 md5 t (dest e.1) e.1 e.2 with
    | (t', .installed) => (t', true)
    | (t', .own_error) => (t', e.1.optional)
    | (t', .other_error) => (t', false)

/-! ### MOSS -/

structure Targets where
  model_root : List String
  worker_dir : List String

/-- The destination of an item: binaries stand flat in the worker directory. -/
def Targets.dest (targets : Targets) (item : Item) : Path :=
  if item.dest_key = "worker_dir" then ⟨targets.worker_dir, item.rel.name⟩
  else item.rel.under targets.model_root

/-- The engines that `write_engine_meta_sidecars` finds below a directory. -/
def engines_below (t : FileTree File) (root : List String) : List Path :=
  (t.items.filter fun e => root.isPrefixOf e.1.parents && (t.read e.1).isSome &&
    [".plan", ".engine"].any fun ext =>
      PyText.endswith e.1.name ext && ext.length < e.1.name.length).map Prod.fst

section
variable (dumps : Meta → List UInt8) (host : HostSignature)

/-- A sidecar; what goes wrong is only logged. -/
def write_engine_meta (tag : String) (t : FileTree File) (p : Path) : FileTree File :=
  (write_meta sha256 dumps host t p tag .null .null .null).getD t

def write_engine_meta_sidecars (root : List String) (tag : String) (t : FileTree File) : FileTree File :=
  (engines_below t root).foldl (write_engine_meta sha256 dumps host tag) t

/-- `ensure_moss_artifacts`; the flag says that it returns. -/
def ensure_moss_artifacts (auto_download : Bool) (targets : Targets)
    (files : List (Item × Payload)) (t : FileTree File) : FileTree File × Bool :=
  if !auto_download then (t, true)
  else if files.isEmpty then (t, false)
  else match each (ensure_item sha256 md5 targets.dest) files t with
    | (t', true) => (write_engine_meta_sidecars sha256 dumps host targets.model_root "moss_prestaged" t',
        true)
    | (t', false) => (t', false)

end

/-! ### Edge-LLM -/

/-- Everything is relative to one directory. -/
def dest_below (root : List String) (item : Item) : Path := item.rel.under root

/-- `ensure_edgellm_v090_artifacts`. -/
def ensure_edgellm_v090_artifacts (auto_download : Bool) (engine_root : List String)
    (files : List (Item × Payload)) (t : FileTree File) : FileTree File × Bool :=
  if !auto_download then (t, true)
  else if files.isEmpty then (t, false)
  else each (ensure_item sha256 md5 (dest_below engine_root)) files t

/-! ### Rockchip -/

/-- The check in front of a download of `ensure_rk_artifacts`. -/
def rk_verify (t : FileTree File) (dest : Path) (item : Item) : Option Bool :=
  if t.exist dest then
    if item.sha256.truthy then
      (t.read dest).map fun f => .str (sha256 f.bytes) = item.sha256
    else some true
  else some false

/-- The check after it. -/
def Item.rk_check (item : Item) (bytes : List UInt8) : Bool :=
  !item.sha256.truthy || .str (sha256 bytes) = item.sha256

/-- One item: `_download` moves the payload over the destination, then it is checked. -/
def ensure_rk_item (dest : Item → Path) (e : Item × Payload) (t : FileTree File) : FileTree File × Bool :=
  match rk_verify sha256 t (dest e.1) e.1 with
  | none => (t, false)
  | some true => (t, true)
  | some false => match e.2 with
    | .no_directory => (t, false)
    | .failed left _ => (leave t (part_path (dest e.1)) left, false)
    | .bytes f =>
      if e.1.rk_check sha256 f.bytes then
        (FileTree.put (t.erase (part_path (dest e.1))) (dest e.1) f, true)
      else ((t.erase (part_path (dest e.1))).erase (dest e.1), false)

/-- `ensure_rk_artifacts` with the set it selects; `contract` says that the runtime contract of the
    set is met. -/
def ensure_rk_artifacts (auto_download : Bool) (root : List String) (contract : Bool)
    (files : List (Item × Payload)) (t : FileTree File) : FileTree File × Bool :=
  if !auto_download then (t, true)
  else match each (ensure_rk_item sha256 (dest_below root)) files t with
    | (t', ok) => (t', ok && contract)

end

/-! Provisioning and the artifacts that are there: a destination that existed before a run still has
    its bytes afterwards, or has bytes with a hash that the manifest declares for it. The loops that
    check before they move over the destination keep this, as long as no destination is used as a
    scratch name for another one. The Rockchip loop moves first, and so it keeps this exactly as long
    as no payload for such a destination is wrong. -/

section
variable (sha256 md5 : List UInt8 → String) (dest : Item → Path) (files : List (Item × Payload))
  (before : FileTree File)

/-- The destinations that existed before have their bytes, or bytes that were declared for them. -/
def Kept (Declares : Item → List UInt8 → Prop) (after : FileTree File) : Prop :=
  ∀ e ∈ files, ∀ f, before.read (dest e.1) = some f →
    ∃ g, after.read (dest e.1) = some g ∧
      (g.bytes = f.bytes ∨ ∃ e' ∈ files, dest e'.1 = dest e.1 ∧ Declares e'.1 g.bytes)

/-- None of the paths is a destination that existed before. -/
def Spare (paths : List Path) : Prop :=
  ∀ e ∈ files, (before.read (dest e.1)).isSome = true → dest e.1 ∉ paths

/-- If the item is downloaded, the names this goes through are no destinations. -/
def Apart (e : Item × Payload) (t : FileTree File) : Prop :=
  verify sha256 md5 t (dest e.1) e.1 = some false →
    Spare dest files before [staged_path (dest e.1), part_path (staged_path (dest e.1))]

def RkApart (e : Item × Payload) (t : FileTree File) : Prop :=
  rk_verify sha256 t (dest e.1) e.1 = some false → Spare dest files before [part_path (dest e.1)]

/-- If the item is downloaded over a destination that existed before, the payload is right. -/
def RkRight (e : Item × Payload) (t : FileTree File) : Prop :=
  rk_verify sha256 t (dest e.1) e.1 = some false → (before.read (dest e.1)).isSome = true →
    ∀ f, e.2 = .bytes f → e.1.rk_check sha256 f.bytes = true

/-- The sidecars of the engines below the directory are no destinations. -/
def SidecarsApart (root : List String) (t : FileTree File) : Prop :=
  ∀ p ∈ engines_below t root, Spare dest files before [meta_path p, tmp_path p]

/-! ### Single steps -/

theorem append_ne_self (p : Path) {ext : String} (h : ext ≠ "") : p.append ext ≠ p := by
  intro heq
  have hname : p.name ++ ext = p.name := congrArg Path.name heq
  have hlen := congrArg String.length hname
  simp only [String.length_append, Nat.add_eq_left, String.length_eq_zero_iff] at hlen
  exact h hlen

theorem read_unlink (t : FileTree File) {p q : Path} (h : q ≠ p) : (unlink t p).read q = t.read q := by
  unfold unlink
  split
  · rfl
  · rw [FileTree.read_erase, if_neg h]

theorem read_leave (t : FileTree File) {p q : Path} (h : q ≠ p) (left : Option File) :
    (leave t p left).read q = t.read q := by
  cases left with
  | none => exact read_unlink t h
  | some f => rw [leave, FileTree.read_put, if_neg h]

variable {sha256 md5 dest files before}

/-- An installation leaves what is not one of its three names. -/
theorem install_verified_other (t : FileTree File) {p q : Path} (item : Item) (payload : Payload)
    (hp : q ≠ p) (hstaged : q ≠ staged_path p) (hpart : q ≠ part_path (staged_path p)) :
    (install_verified sha256 md5 t p item payload).1.read q = t.read q := by
  cases payload with
  | no_directory => rfl
  | failed left own_error =>
    rw [install_verified, read_unlink _ hstaged, read_leave _ hpart]
  | bytes f =>
    simp only [install_verified]
    split
    · rw [FileTree.read_put, if_neg hpart]
    · split
      · rw [FileTree.read_put, if_neg hp, FileTree.read_erase, if_neg hstaged, FileTree.read_erase, if_neg hpart]
      · rw [FileTree.read_erase, if_neg hstaged, FileTree.read_erase, if_neg hpart]

/-- The destination of an installation stays, or has a payload that passed the check. -/
theorem install_verified_dest (sha256 md5 : List UInt8 → String) (t : FileTree File) (p : Path) (item : Item) (payload : Payload) :
    (install_verified sha256 md5 t p item payload).1.read p = t.read p ∨
      ∃ f, (install_verified sha256 md5 t p item payload).1.read p = some f ∧
        item.check_hashes sha256 md5 f.bytes = true := by
  have hstaged : p ≠ staged_path p := (append_ne_self p (by decide)).symm
  have hpart : p ≠ part_path (staged_path p) := by
    rw [part_path, staged_path, Path.append_append]
    exact (append_ne_self p (by decide)).symm
  cases payload with
  | no_directory => exact Or.inl rfl
  | failed left own_error =>
    refine Or.inl ?_
    rw [install_verified, read_unlink _ hstaged, read_leave _ hpart]
  | bytes f =>
    simp only [install_verified]
    split
    · rw [FileTree.read_put, if_neg hpart]
      exact Or.inl rfl
    · split
      · next hcheck =>
        refine Or.inr ⟨f, ?_, hcheck⟩
        rw [FileTree.read_put, if_pos rfl]
      · refine Or.inl ?_
        rw [FileTree.read_erase, if_neg hstaged, FileTree.read_erase, if_neg hpart]

/-- A destination that is there and not verified has a hash declared for it. -/
theorem declared_of_verify {t : FileTree File} {p : Path} {item : Item} {f : File}
    (hf : t.read p = some f) (h : verify sha256 md5 t p item = some false) :
    (item.sha256.truthy || item.md5.truthy) = true := by
  have hexist : t.exist p = true := by
    rw [FileTree.exist, FileTree.read_eq_some.1 hf]
    rfl
  unfold verify at h
  rw [if_pos hexist] at h
  split at h
  · next hdeclared => exact hdeclared
  · cases h

/-- What one item does to the tree: nothing, or an installation of a destination that was not
    verified. -/
theorem ensure_item_tree (sha256 md5 : List UInt8 → String) (dest : Item → Path)
    (e : Item × Payload) (t : FileTree File) :
    (ensure_item sha256 md5 dest e t).1 = t ∨
      verify sha256 md5 t (dest e.1) e.1 = some false ∧
        (ensure_item sha256 md5 dest e t).1 =
          (install_verified sha256 md5 t (dest e.1) e.1 e.2).1 := by
  unfold ensure_item
  split
  · exact Or.inl rfl
  · exact Or.inl rfl
  · next hverify =>
    refine Or.inr ⟨hverify, ?_⟩
    split
    · next hend => rw [hend]
    · next hend => rw [hend]
    · next hend => rw [hend]

theorem kept_refl {Declares : Item → List UInt8 → Prop} : Kept dest files before Declares before :=
  fun _ _ f hf => ⟨f, hf, Or.inl rfl⟩

/-- A change of the tree that leaves the destinations that existed before keeps them. -/
theorem Kept.of_read {Declares : Item → List UInt8 → Prop} {t u : FileTree File}
    (h : Kept dest files before Declares t)
    (hread : ∀ e ∈ files, (before.read (dest e.1)).isSome = true →
      u.read (dest e.1) = t.read (dest e.1)) : Kept dest files before Declares u := by
  intro e he f hf
  rw [hread e he (by rw [hf]; rfl)]
  exact h e he f hf

/-- One item keeps the destinations. -/
theorem kept_item {t : FileTree File} (h : Kept dest files before (Item.Declares sha256 md5) t)
    {e : Item × Payload} (he : e ∈ files) (hapart : Apart sha256 md5 dest files before e t) :
    Kept dest files before (Item.Declares sha256 md5) (ensure_item sha256 md5 dest e t).1 := by
  rcases ensure_item_tree sha256 md5 dest e t with hsame | ⟨hverify, hinstall⟩
  · rwa [hsame]
  · rw [hinstall]
    have hspare := hapart hverify
    intro e' he' f hf
    have hnot := hspare e' he' (by rw [hf]; rfl)
    simp only [List.mem_cons, List.not_mem_nil, or_false, not_or] at hnot
    obtain ⟨g, hg, hbytes⟩ := h e' he' f hf
    by_cases hdest : dest e'.1 = dest e.1
    · rw [hdest] at hg ⊢
      rcases install_verified_dest sha256 md5 t (dest e.1) e.1 e.2 with
        hkeep | ⟨g', hg', hcheck⟩
      · rw [hkeep]
        refine ⟨g, hg, ?_⟩
        rwa [hdest] at hbytes
      · exact ⟨g', hg', Or.inr ⟨e, he, rfl, declared_of_verify hg hverify, hcheck⟩⟩
    · rw [install_verified_other t e.1 e.2 hdest hnot.1 hnot.2]
      exact ⟨g, hg, hbytes⟩

/-- The loop of MOSS and Edge-LLM keeps the destinations. -/
theorem kept_each (h : Along (Apart sha256 md5 dest files before) (ensure_item sha256 md5 dest) files
    before) : Kept dest files before (Item.Declares sha256 md5)
      (each (ensure_item sha256 md5 dest) files before).1 :=
  each_invariant (I := Kept dest files before (Item.Declares sha256 md5))
    (fun _ hi _ ht hP => kept_item ht hi hP) kept_refl h

section
variable {dumps : Meta → List UInt8} {host : HostSignature}

/-- A sidecar leaves everything but its own two names. -/
theorem write_engine_meta_other (tag : String) (t : FileTree File) {p q : Path} (hm : q ≠ meta_path p)
    (ht : q ≠ tmp_path p) :
    (write_engine_meta sha256 dumps host tag t p).read q = t.read q := by
  unfold write_engine_meta write_meta
  cases t.read p with
  | none => rfl
  | some f =>
    rw [Option.bind_some]
    cases hput : put_sidecar dumps t p _ with
    | none => rfl
    | some u =>
      rw [Option.getD_some]
      refine FileTree.read_congr ?_
      rw [put_sidecar_get dumps hput, if_neg hm, if_neg ht]

theorem write_engine_metas_other (tag : String) (engines : List Path) (t : FileTree File) {q : Path}
    (h : ∀ p ∈ engines, q ∉ [meta_path p, tmp_path p]) :
    (engines.foldl (write_engine_meta sha256 dumps host tag) t).read q = t.read q := by
  induction engines generalizing t with
  | nil => rfl
  | cons p rest ih =>
    have hp := h p List.mem_cons_self
    simp only [List.mem_cons, List.not_mem_nil, or_false, not_or] at hp
    rw [List.foldl_cons, ih _ fun a ha => h a (List.mem_cons_of_mem p ha),
      write_engine_meta_other tag t hp.1 hp.2]

theorem kept_moss {auto_download : Bool} {targets : Targets}
    (happart : Along (Apart sha256 md5 targets.dest files before)
      (ensure_item sha256 md5 targets.dest) files before)
    (hsidecars : SidecarsApart targets.dest files before targets.model_root
      (each (ensure_item sha256 md5 targets.dest) files before).1) :
    Kept targets.dest files before (Item.Declares sha256 md5)
      (ensure_moss_artifacts sha256 md5 dumps host auto_download targets files before).1 := by
  have hloop := kept_each happart
  unfold ensure_moss_artifacts
  split
  · exact kept_refl
  · split
    · exact kept_refl
    · split
      · next t ht =>
        rw [ht] at hloop hsidecars
        refine hloop.of_read fun e he hsome => ?_
        exact write_engine_metas_other _ _ _ fun p hp => hsidecars p hp e he hsome
      · next t ht =>
        rw [ht] at hloop
        exact hloop

end

theorem kept_edgellm {auto_download : Bool} {root : List String}
    (happart : Along (Apart sha256 md5 (dest_below root) files before)
      (ensure_item sha256 md5 (dest_below root)) files before) :
    Kept (dest_below root) files before (Item.Declares sha256 md5)
      (ensure_edgellm_v090_artifacts sha256 md5 auto_download root files before).1 := by
  have hloop := kept_each happart
  unfold ensure_edgellm_v090_artifacts
  split
  · exact kept_refl
  · split
    · exact kept_refl
    · exact hloop

/-! ### Rockchip -/

variable (sha256) in
/-- The hash that the Rockchip manifest declares. -/
def Item.RkDeclares (item : Item) (bytes : List UInt8) : Prop :=
  item.sha256.truthy = true ∧ Json.str (sha256 bytes) = item.sha256

theorem rk_declared_of_verify {t : FileTree File} {p : Path} {item : Item} {f : File}
    (hf : t.read p = some f) (h : rk_verify sha256 t p item = some false) :
    item.sha256.truthy = true := by
  have hexist : t.exist p = true := by
    rw [FileTree.exist, FileTree.read_eq_some.1 hf]
    rfl
  unfold rk_verify at h
  rw [if_pos hexist] at h
  split at h
  · next hdeclared => exact hdeclared
  · cases h

/-- One item keeps the destinations if its payload is right. -/
theorem kept_rk_item {t : FileTree File} (h : Kept dest files before (Item.RkDeclares sha256) t)
    {e : Item × Payload} (he : e ∈ files) (hapart : RkApart sha256 dest files before e t)
    (hright : RkRight sha256 dest before e t) :
    Kept dest files before (Item.RkDeclares sha256) (ensure_rk_item sha256 dest e t).1 := by
  unfold ensure_rk_item
  split
  · exact h
  · exact h
  · next hverify =>
    have hspare := hapart hverify
    have hpart : ∀ e' ∈ files, (before.read (dest e'.1)).isSome = true →
        dest e'.1 ≠ part_path (dest e.1) := by
      intro e' he' hsome hmem
      exact hspare e' he' hsome (by rw [hmem]; exact List.mem_singleton_self _)
    split
    · exact h
    · exact h.of_read fun e' he' hsome => read_leave t (hpart e' he' hsome) _
    · next f hpayload =>
      split
      · next hcheck =>
        intro e' he' f' hf'
        obtain ⟨g, hg, hbytes⟩ := h e' he' f' hf'
        by_cases hdest : dest e'.1 = dest e.1
        · rw [hdest] at hg ⊢
          refine ⟨f, by rw [FileTree.read_put, if_pos rfl], Or.inr ⟨e, he, rfl, ?_⟩⟩
          have hdeclared := rk_declared_of_verify hg hverify
          refine ⟨hdeclared, ?_⟩
          simpa [Item.rk_check, hdeclared] using hcheck
        · refine ⟨g, ?_, hbytes⟩
          rw [FileTree.read_put, if_neg hdest, FileTree.read_erase,
            if_neg (hpart e' he' (by rw [hf']; rfl))]
          exact hg
      · next hcheck =>
        -- the payload is wrong, so the destination did not exist before
        refine h.of_read fun e' he' hsome => ?_
        have hdest : dest e'.1 ≠ dest e.1 := by
          intro hdest
          exact hcheck (hright hverify (hdest ▸ hsome) f hpayload)
        rw [FileTree.read_erase, if_neg hdest, FileTree.read_erase, if_neg (hpart e' he' hsome)]

/-- A wrong payload ends the run without the destination. -/
theorem lost_rk_item {t : FileTree File} {e : Item × Payload} (he : e ∈ files)
    (hwrong : ¬ RkRight sha256 dest before e t) :
    (ensure_rk_item sha256 dest e t).2 = false ∧
      ¬ Kept dest files before (Item.RkDeclares sha256) (ensure_rk_item sha256 dest e t).1 := by
  unfold RkRight at hwrong
  simp only [Classical.not_imp, not_forall] at hwrong
  obtain ⟨hverify, hsome, f, hpayload, hcheck⟩ := hwrong
  have hend : ensure_rk_item sha256 dest e t =
      ((t.erase (part_path (dest e.1))).erase (dest e.1), false) := by
    rw [ensure_rk_item, hverify, hpayload]
    exact if_neg hcheck
  rw [hend]
  refine ⟨rfl, fun hkept => ?_⟩
  obtain ⟨f', hf'⟩ := Option.isSome_iff_exists.1 hsome
  obtain ⟨g, hg, -⟩ := hkept e he f' hf'
  rw [FileTree.read_erase, if_pos rfl] at hg
  cases hg

theorem kept_rk_iff {auto_download : Bool} {root : List String} {contract : Bool}
    (happart : Along (RkApart sha256 (dest_below root) files before)
      (ensure_rk_item sha256 (dest_below root)) files before) :
    Kept (dest_below root) files before (Item.RkDeclares sha256)
        (ensure_rk_artifacts sha256 auto_download root contract files before).1 ↔
      (auto_download = true → Along (RkRight sha256 (dest_below root) before)
        (ensure_rk_item sha256 (dest_below root)) files before) := by
  cases auto_download with
  | false => exact ⟨fun _ h => absurd h (by decide), fun _ => kept_refl⟩
  | true =>
    have hloop := each_iff (J := Kept (dest_below root) files before (Item.RkDeclares sha256))
      (fun _ h => h) (fun _ hi _ ht hP hQ => kept_rk_item ht hi hP hQ)
      (fun _ hi _ _ _ hQ => lost_rk_item hi hQ) kept_refl happart
    exact hloop.trans ⟨fun h _ => h, fun h => h rfl⟩

end

/-! ### The three provisioners -/

/-- Whatever stood in the target tree, whatever the manifest says and the downloads bring: MOSS and
    Edge-LLM keep the destinations, as long as none of them is a name that the installation of an
    item that is downloaded goes through, or a sidecar that MOSS writes at its end. As long as none
    is such a name, the Rockchip run keeps them if and only if no payload that it downloads for one
    of them is wrong. -/
theorem artifacts_kept (sha256 md5 : List UInt8 → String) (dumps : Meta → List UInt8)
    (host : HostSignature) (auto_download : Bool) (files : List (Item × Payload))
    (before : FileTree File) :
    (∀ targets : Targets,
      Along (Apart sha256 md5 targets.dest files before) (ensure_item sha256 md5 targets.dest) files
        before →
      SidecarsApart targets.dest files before targets.model_root
        (each (ensure_item sha256 md5 targets.dest) files before).1 →
      Kept targets.dest files before (Item.Declares sha256 md5)
        (ensure_moss_artifacts sha256 md5 dumps host auto_download targets files before).1) ∧
    (∀ engine_root,
      Along (Apart sha256 md5 (dest_below engine_root) files before)
        (ensure_item sha256 md5 (dest_below engine_root)) files before →
      Kept (dest_below engine_root) files before (Item.Declares sha256 md5)
        (ensure_edgellm_v090_artifacts sha256 md5 auto_download engine_root files before).1) ∧
    ∀ root contract,
      Along (RkApart sha256 (dest_below root) files before)
        (ensure_rk_item sha256 (dest_below root)) files before →
      (Kept (dest_below root) files before (Item.RkDeclares sha256)
          (ensure_rk_artifacts sha256 auto_download root contract files before).1 ↔
        (auto_download = true → Along (RkRight sha256 (dest_below root) before)
          (ensure_rk_item sha256 (dest_below root)) files before)) :=
  ⟨fun _ happart hsidecars => kept_moss happart hsidecars, fun _ happart => kept_edgellm happart,
    fun _ _ happart => kept_rk_iff happart⟩

/-! ### A stale manifest -/

/-- A hash that tells the byte of the working artifact from others. -/
def first_hash : List UInt8 → String := fun bytes => if bytes = [1] then "one" else "other"

def no_dump : Meta → List UInt8 := fun _ => []

def a_host : HostSignature := ⟨"87", "10.3", "6.2", "12.6", "tegra"⟩

/-- An item with a hash that no payload has, and a download that comes through. -/
def stale : Item × Payload :=
  (⟨⟨[], "a.rknn"⟩, "model_root", .str "stale", .null, false⟩, .bytes ⟨[2], .invalid⟩)

def models : Targets := ⟨["models"], ["workers"]⟩

/-- The artifact is there, and works. -/
def working : FileTree File := Dict.empty.set ⟨["models"], "a.rknn"⟩ (.file ⟨[1], .invalid⟩)

theorem spare_stale (dest : Item → Path) (paths : List Path) (h : dest stale.1 ∉ paths) :
    Spare dest [stale] working paths := by
  intro e he _
  obtain rfl := List.mem_singleton.1 he
  exact h

theorem artifacts_kept_stale :
    Kept models.dest [stale] working (Item.Declares first_hash first_hash)
      (ensure_moss_artifacts first_hash first_hash no_dump a_host true models [stale] working).1 ∧
    Kept (dest_below ["models"]) [stale] working (Item.Declares first_hash first_hash)
      (ensure_edgellm_v090_artifacts first_hash first_hash true ["models"] [stale] working).1 ∧
    (Kept (dest_below ["models"]) [stale] working (Item.RkDeclares first_hash)
        (ensure_rk_artifacts first_hash true ["models"] true [stale] working).1 ↔
      (true = true → Along (RkRight first_hash (dest_below ["models"]) working)
        (ensure_rk_item first_hash (dest_below ["models"])) [stale] working)) := by
  have h := artifacts_kept first_hash first_hash no_dump a_host true [stale] working
  refine ⟨h.1 models ⟨fun _ => spare_stale _ _ (by decide), fun _ _ => trivial⟩ ?_,
    h.2.1 ["models"] ⟨fun _ => spare_stale _ _ (by decide), fun _ _ => trivial⟩,
    h.2.2 ["models"] true ⟨fun _ => spare_stale _ _ (by decide), fun _ _ => trivial⟩⟩
  have hnone : engines_below (each (ensure_item first_hash first_hash models.dest) [stale] working).1
      models.model_root = [] := by decide
  intro p hp
  rw [hnone] at hp
  cases hp

/-- The Rockchip run unlinks the artifact. -/
theorem stale_manifest_destroys : ¬ ∀ (files : List (Item × Payload)) (before : FileTree File),
    Kept (dest_below ["models"]) files before (Item.RkDeclares first_hash)
      (ensure_rk_artifacts first_hash true ["models"] true files before).1 := by
  intro hall
  obtain ⟨g, hg, -⟩ := hall [stale] working stale (List.mem_singleton_self _) ⟨[1], .invalid⟩ rfl
  cases hg

end LocalVoice.ArtifactProvision
