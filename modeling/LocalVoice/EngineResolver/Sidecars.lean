import LocalVoice.Lib.Files
import LocalVoice.Lib.PyText
import LocalVoice.Lib.Run
import LocalVoice.EngineResolver.Refusals

/-! `build_report` of `server/core/engine_resolver.py` over the model directories: the engines of a
    profile are resolved one after the other, each from its directory or from a bundle that is
    unpacked over it. What the downloads brought is remembered beside the disk, so that a sidecar can
    be compared with it.

        <dir>/a.engine   <dir>/a.engine.meta.json   <dir>/a.engine.meta.json.tmp -/

namespace LocalVoice.EngineResolver
open LocalVoice.Lib

/-- What `json.loads` makes of the bytes of a file; see `Sidecar`. -/
inductive Parsed where
  | undecodable
  | invalid
  | not_object (truthy : Bool)
  | object (m : Meta)

structure File where
  bytes : List UInt8
  json : Parsed

def Parsed.sidecar : Parsed → Sidecar
  | .undecodable => .undecodable
  | .invalid => .invalid
  | .not_object truthy => .not_object truthy
  | .object m => .object m

def meta_path (engine_path : Path) : Path := engine_path.append ".meta.json"

/-- The name `_write_meta` writes under before it replaces the sidecar. -/
def tmp_path (engine_path : Path) : Path := (meta_path engine_path).append ".tmp"

/-- The directory of one engine, as `_resolve_one` looks at it. -/
def view (disk : FileTree File) (engine_path : Path) : Directory where
  engine := match disk.get? engine_path with
    | none => .missing
    | some .directory => .not_a_file
    | some (.file f) => .file f.bytes
  sidecar := match disk.get? (meta_path engine_path) with
    | none => .absent
    | some .directory => .directory
    | some (.file f) => f.json.sidecar

def HostSignature.key (h : HostSignature) : String :=
  if h.platform = "tegra" then
    "sm" ++ h.sm ++ "-trt" ++ h.trt_version ++ "-jp" ++ h.jp_version ++ "-cuda" ++ h.cuda_version
  else "sm" ++ h.sm ++ "-trt" ++ h.trt_version ++ "-" ++ h.platform ++ "-cuda" ++ h.cuda_version

/-- `isinstance(sha, str) and len(sha) == 64`. -/
def is_sha256 : Json → Bool
  | .str s => s.length = 64
  | _ => false

/-- The number an `isinstance(size, int)` lets through. -/
def as_int : Json → Option ℤ
  | .int n => some n
  | .bool b => some (if b then 1 else 0)
  | _ => none

def is_size (size : Json) : Bool := (as_int size).any (0 < ·)

/-- An entry of `required_engines`. The paths are those `_extra_file_paths` and
    `_onnx_path_candidates` make of it; `_release_integrity_lock` lets no other lock through. -/
structure RequiredEngine extends EngineSpec where
  engine_path : Path
  extra_file_paths : List Path
  onnx_path_candidates : List Path
  lock_checked : ∀ lock, release_lock = some lock → is_sha256 lock.1 ∧ is_size lock.2

/-- What a manifest says of a bundle; a missing field is null. -/
structure FileInfo where
  sha256 : Json
  size : Json

/-- An archive: its bytes, and the tree `extractall` makes of it. That is none if a member is refused
    or the archive cannot be read. -/
structure Tarball where
  bytes : List UInt8
  members : Option (FileTree File)

/-- HuggingFace during one call: the bundles of the manifest, none if there is no manifest or its
    `files` is no object, and what a download brings, none if it fails. -/
structure Hub where
  files : Option (String → Option FileInfo)
  tarball : Option Tarball

/-- A bundle that was downloaded, and had the hash it was expected to have. -/
structure Download where
  host_key : String
  sha256 : String
  members : FileTree File

structure State where
  disk : FileTree File
  downloads : List Download

/-- `_iter_extracted_engine_files`, of a name. -/
def is_engine_name (name : String) : Bool :=
  !PyText.startswith name "._" &&
    [".engine", ".plan"].any fun ext => PyText.endswith name ext && ext.length < name.length

def iter_extracted_engine_files (disk : FileTree File) (dir : List String) : List Path :=
  (disk.files_in dir).filter fun p => is_engine_name p.name

section
variable (sha256 : List UInt8 → String) (dumps : Meta → List UInt8) (host : HostSignature)

/-- The write of a sidecar and its replacement; `none` is an exception. -/
def put_sidecar (disk : FileTree File) (engine_path : Path) (m : Meta) : Option (FileTree File) :=
  if disk.is_dir (tmp_path engine_path) || disk.is_dir (meta_path engine_path) then none
  else some (FileTree.put (disk.erase (tmp_path engine_path)) (meta_path engine_path)
    ⟨dumps m, .object m⟩)

theorem put_sidecar_get {disk t : FileTree File} {e : Path} {m : Meta}
    (h : put_sidecar dumps disk e m = some t) (p : Path) :
    t.get? p = if p = meta_path e then some (.file ⟨dumps m, .object m⟩)
      else if p = tmp_path e then none else disk.get? p := by
  unfold put_sidecar at h
  split at h
  · cases h
  · obtain rfl := Option.some.inj h
    simp only [FileTree.put, Dict.get?_set, Dict.get?_erase]

/-- `_write_meta`. -/
def write_meta (disk : FileTree File) (engine_path : Path) (source : String)
    (onnx_sha bundle_sha256 bundle_size : Json) : Option (FileTree File) :=
  (disk.read engine_path).bind fun f => put_sidecar dumps disk engine_path
    ⟨some host.to_dict, .str (sha256 f.bytes), onnx_sha, .str source, bundle_sha256, bundle_size⟩

/-- `_migrate_existing_engine`: the disk if it was written; an outer `none` is an exception. -/
def migrate (disk : FileTree File) (engine_path : Path) : Option (Option (FileTree File)) :=
  match migrate_existing_engine sha256 host (view disk engine_path) with
  | none => none
  | some (_, false) => some none
  | some (d, true) => match d.sidecar with
    | .object m => (put_sidecar dumps disk engine_path m).map some
    | _ => some none

/-- The sidecar for an engine file after a bundle was unpacked; one that cannot be written is
    skipped. -/
def write_bundle_meta (info : FileInfo) (onnx_sha : Json) (disk : FileTree File) (p : Path) : FileTree File :=
  (write_meta sha256 dumps host disk p "hf_bundle" onnx_sha info.sha256 info.size).getD disk

def write_bundle_metas (info : FileInfo) (onnx_sha : Json) (engines : List Path)
    (disk : FileTree File) : FileTree File :=
  engines.foldl (write_bundle_meta sha256 dumps host info onnx_sha) disk

namespace RequiredEngine
variable (spec : RequiredEngine)

def extra_files_exist (disk : FileTree File) : Bool :=
  spec.extra_file_paths.all fun p => disk.exist p

/-- The directory bundles are unpacked into, `spec.engine_path.parent`. -/
def dir : List String := spec.engine_path.parents

/-- The hash of the first ONNX file there is; `none` if that is a directory. -/
def onnx_sha (disk : FileTree File) : Option Json :=
  match spec.onnx_path_candidates.find? fun p => disk.exist p with
  | none => some .null
  | some p => (disk.read p).map fun f => .str (sha256 f.bytes)

/-- The checks of a bundle's entry that a release-locked spec asks for. -/
def published (info : FileInfo) : Bool :=
  !spec.require_published_integrity ||
    (is_sha256 info.sha256 && is_size info.size && spec.release_lock = some (info.sha256, info.size))

/-- `download_file` under the entry: the size is checked for a locked spec, the hash if there is
    one. -/
def intact (info : FileInfo) (bytes : List UInt8) : Bool :=
  (!spec.require_published_integrity || as_int info.size = some bytes.length) &&
    (!info.sha256.truthy || info.sha256 = .str (sha256 bytes))

/-- The bundle that a call of `_try_hf_resolve` unpacks, if it comes to that: its entry, the hash of
    its bytes and its tree. -/
def fetch (hub : Hub) : Option (FileInfo × String × FileTree File) := do
  let files ← hub.files
  let info ← files ("engines/" ++ host.key ++ ".tar.gz")
  guard (spec.published info)
  let tarball ← hub.tarball
  guard (spec.intact sha256 info tarball.bytes)
  let members ← tarball.members
  pure (info, sha256 tarball.bytes, members)

/-- What has to be there after the bundle was unpacked. -/
def complete (disk : FileTree File) : Bool :=
  disk.exist spec.engine_path && spec.extra_files_exist disk && (spec.onnx_sha sha256 disk).isSome

/-- `_try_hf_resolve`; the flag says that it returns true. -/
def try_hf_resolve (hub : Hub) (s : State) : State × Bool :=
  match spec.fetch sha256 host hub with
  | none => (s, false)
  | some (info, sha, members) =>
    let disk := FileTree.unpack s.disk spec.dir members
    let downloads := if info.sha256.truthy then ⟨host.key, sha, members⟩ :: s.downloads
      else s.downloads
    match spec.complete sha256 disk, spec.onnx_sha sha256 disk with
    | true, some onnx_sha => (⟨write_bundle_metas sha256 dumps host info onnx_sha
        (iter_extracted_engine_files disk spec.dir) disk, downloads⟩, true)
    | _, _ => (⟨disk, downloads⟩, false)

/-- The tail of `_resolve_one`. -/
def from_hf (hub : Hub) (s : State) : State × Bool :=
  if s.disk.is_dir (meta_path spec.engine_path) then (s, false)
  else spec.try_hf_resolve sha256 dumps host hub
    { s with disk := s.disk.erase (meta_path spec.engine_path) }

/-- The first half of `_resolve_one`, without HuggingFace: the disk it leaves and whether it returns;
    `none` when it goes on. -/
def resolve_local (force_rebuild : Bool) (disk : FileTree File) : Option (FileTree File × Bool) :=
  match meta_matches sha256 host (view disk spec.engine_path) with
  | none => some (disk, false)
  | some cache_valid =>
    if !force_rebuild && (cache_valid && spec.verified (view disk spec.engine_path)) &&
        spec.extra_files_exist disk then some (disk, true)
    else if !force_rebuild && !spec.require_published_integrity && spec.extra_files_exist disk then
      match migrate sha256 dumps host disk spec.engine_path with
      | none => some (disk, false)
      | some (some disk') => some (disk', true)
      | some none => none
    else none

/-- `_resolve_one`; the flag says that it returns, it raises otherwise. -/
def resolve_one (force_rebuild : Bool) (hub : Hub) (s : State) : State × Bool :=
  match spec.resolve_local sha256 dumps host force_rebuild s.disk with
  | some (disk, ok) => ({ s with disk := disk }, ok)
  | none => spec.from_hf sha256 dumps host hub s

end RequiredEngine

/-- One engine of a run: its spec, the switch, and HuggingFace while it is resolved. -/
structure Call where
  spec : RequiredEngine
  force_rebuild : Bool
  hub : Hub

def Call.resolve (c : Call) (s : State) : State × Bool :=
  c.spec.resolve_one sha256 dumps host c.force_rebuild c.hub s

/-- `build_report`: the engines one after the other, whatever becomes of each. -/
def build_report (calls : List Call) (s : State) : State :=
  calls.foldl (fun s c => (c.resolve sha256 dumps host s).1) s

end

end LocalVoice.EngineResolver
