import LocalVoice.ModelCache.Manifest

/-! `ensure_model_artifacts` of `server/core/qwen3_artifact_downloader.py`. A model is staged beside
    its cache, from an archive or a snapshot, gets a `manifest.json`, is checked, and becomes the
    cache; a later call checks the cache against the manifest that was stored there.

        cache valid ──▶ materialized
        else ──▶ staged ──▶ manifest.json written ──▶ checked ──▶ installed ──▶ materialized -/

namespace LocalVoice.ModelCache
open LocalVoice.Lib

/-- HuggingFace during a call: the manifest it serves; an archive, with the tree `_safe_extract`
    makes of it; and what a snapshot with these patterns brings. None is an exception. -/
structure Hub where
  manifest : Option Manifest
  archive : Option (List UInt8 × Option (FileTree File))
  snapshot : List String → Option (FileTree File)

/-- The runtime root: the cache itself, a link to it, another link, nothing, an empty directory, or
    something else. -/
inductive Runtime where
  | cache
  | linked
  | other_link
  | missing
  | empty_directory
  | occupied
  deriving DecidableEq

/-- `_materialize`; `none` is an exception. -/
def materialize : Runtime → Option Runtime
  | .cache => some .cache
  | .linked => some .linked
  | .other_link | .missing | .empty_directory => some .linked
  | .occupied => none

/-! ### Flattening -/

def top_level (t : FileTree File) : List (Path × Node File) := t.items.filter fun e => e.1.parents = []

/-- The directory a payload is wrapped in, by name or because there is nothing else. -/
def wrapper (t : FileTree File) (r : Request) : Option (List String) :=
  let name := (Path.parts r.model_id).getLastD ""
  let names := [name, canonical_model_id r.model_id] ++
    match r.canonical_id.filter (· ≠ "") with
    | none => []
    | some id => [canonical_model_id id, "models/" ++ name]
  match names.find? fun n => is_dir_at t n with
  | some n => locate t n
  | none => match top_level t with
    | [(p, .directory)] => some [p.name]
    | _ => none

/-- The entries of a directory move up to the root, and the directory goes; `none` if one of them is
    there already. -/
def hoist (t : FileTree File) (dir : List String) : Option (FileTree File) :=
  if dir = [] || (t.items.any fun e => e.1.parents = dir && t.exist ⟨[], e.1.name⟩) then none
  else some (Dict.empty.update (t.items.filterMap fun e =>
    if to_path dir = some e.1 then none
    else some ((e.1.below dir).getD e.1, e.2)))

/-- `_flatten`; `none` is an exception. -/
def flatten (t : FileTree File) (r : Request) (required : List String) : Option (FileTree File) :=
  if (required.filter fun raw => !PyText.startswith raw "/").all
      fun raw => (locate t (lstrip_of "./" raw)).isSome then some t
  else match wrapper t r with
    | none => some t
    | some dir => hoist t dir

/-! ### One call -/

section
variable (sha256 : List UInt8 → String) (dumps : Manifest → List UInt8 × Option (List String))

/-- The staged tree and the manifest it was fetched by; `none` is an exception. -/
def stage (hub : Hub) (r : Request) : Option (Manifest × FileTree File) := do
  let m ← hub.manifest
  let files ← manifest_files r.model_id r.canonical_id m
  match ← archive_spec r.model_id r.canonical_id m with
  | some (digest, size) =>
    let (bytes, members) ← hub.archive
    guard (size = bytes.length ∧ sha256 bytes = digest)
    let members ← members
    let t ← flatten members r (if r.required.isEmpty then files.keys else r.required)
    pure (m, t)
  | none =>
    let t ← hub.snapshot (files.keys ++ ["manifest.json", "SHA256SUMS", "PROVENANCE.md"] ++ r.required)
    pure (m, t)

/-- The manifest that is stored in a staged tree: the one that came with it, or the one it was
    fetched by, with the source of the call; `none` is an exception. -/
def stored_manifest (source : Source) (m : Manifest) (t : FileTree File) : Option Manifest :=
  match t.get? manifest_path with
  | some .directory => none
  | none => some { m with source := some source }
  | some (.file f) => match f.json with
    | .undecodable => none
    | .object own => some { own with source := some source }
    | .invalid | .not_object => some { m with source := some source }

def dumped (m : Manifest) : File := ⟨(dumps m).1, (dumps m).2, .object m⟩

/-- The arguments of a call: the repository, without slashes around it, and the revision. -/
structure Args where
  request : Request
  repo : String
  revision : String

def Args.source (a : Args) : Source := ⟨some (.str (strip_of "/" a.repo)), some (.str a.revision)⟩

/-- The stored manifest is from the repository and revision of the call, or does not say. -/
def Args.same_source (a : Args) (m : Manifest) : Bool :=
  match m.source with
  | none => true
  | some s => strip_of "/" ((s.repo.getD (.str (strip_of "/" a.repo))).toStr) = strip_of "/" a.repo &&
      (s.revision.getD (.str a.revision)).toStr = a.revision

/-- What stands where the model goes, and how a call ends. -/
structure Cache where
  tree : Option (FileTree File)
  runtime : Runtime

structure Outcome where
  cache : Cache
  returned : Bool
  network : Bool

/-- How the cache is found: it is valid; it is not, which is only logged; or the check raises. -/
inductive Hit where
  | valid (runtime : Runtime)
  | invalid
  | raised

/-- The cache, if its `manifest.json` is a file, with what that reads as. -/
def Cache.manifest (c : Cache) : Option (FileTree File × Parsed) :=
  c.tree.bind fun t => (t.read manifest_path).map fun f => (t, f.json)

def check_cache (under_cache : String → Option String) (a : Args) (c : Cache) : Hit :=
  match c.manifest with
  | none => .invalid
  | some (_, .undecodable) | some (_, .not_object) => .raised
  | some (_, .invalid) => .invalid
  | some (t, .object m) =>
    if !a.same_source m then .invalid
    else match verify_model_files sha256 t under_cache a.request m with
      | .other_error => .raised
      | .runtime_error => .invalid
      | .ok => match materialize c.runtime with
        | none => .invalid
        | some runtime => .valid runtime

/-- The second half: stage, check, install. -/
def install (hub : Hub) (a : Args) (c : Cache) : Outcome :=
  match stage sha256 hub a.request with
  | none => ⟨c, false, true⟩
  | some (m, t) => match stored_manifest a.source m t with
    | none => ⟨c, false, true⟩
    | some stored =>
      match verify_model_files sha256 (t.put manifest_path (dumped dumps stored)) (fun _ => none)
        a.request m with
      | .ok => match materialize c.runtime with
        | none => ⟨{ c with tree := some (t.put manifest_path (dumped dumps stored)) }, false, true⟩
        | some runtime => ⟨⟨some (t.put manifest_path (dumped dumps stored)), runtime⟩, true, true⟩
      | _ => ⟨c, false, true⟩

/-- `ensure_model_artifacts`. Nothing that is required is named by a path into the staging directory,
    which has a fresh name. -/
def ensure_model_artifacts (under_cache : String → Option String) (enabled : Bool) (hub : Hub)
    (a : Args) (c : Cache) : Outcome :=
  match check_cache sha256 under_cache a c with
  | .valid runtime => ⟨{ c with runtime := runtime }, true, false⟩
  | .raised => ⟨c, false, false⟩
  | .invalid => if enabled then install sha256 dumps hub a c else ⟨c, false, false⟩

end

end LocalVoice.ModelCache
