import LocalVoice.Lib.Files
import LocalVoice.Lib.Json
import LocalVoice.Lib.PyInt

/-! Manifests and checksum lists of a model in `server/core/qwen3_artifact_downloader.py`, and the
    check of a tree of files against them. A manifest names files, with or without a lock; a list
    `SHA256SUMS` adds locks for the files that have none. -/

namespace LocalVoice.ModelCache
open LocalVoice.Lib

/-! ### Texts -/

/-- `s.lstrip(chars)`. -/
def lstrip_of (chars s : String) : String :=
  String.ofList (s.toList.dropWhile fun c => c ∈ chars.toList)

/-- `s.strip(chars)`. -/
def strip_of (chars s : String) : String :=
  String.ofList (PyText.trim (fun c => c ∈ chars.toList) s.toList)

/-- `s.replace("\\", "/")`. -/
def slashes (s : String) : String := String.ofList (s.toList.map fun c => if c = '\\' then '/' else c)

/-- `PurePath(s).as_posix()` of a relative path. -/
def as_posix (s : String) : String :=
  match Path.parts s with
  | [] => "."
  | c :: rest => rest.foldl (fun p c => p ++ "/" ++ c) c

/-- `line.split(maxsplit=1)`, if it gives two fields. -/
def two_fields (line : String) : Option (String × String) :=
  let l := PyText.lstrip line.toList
  let rest := PyText.lstrip (l.dropWhile fun c => !PyText.is_space c)
  if rest = [] then none
  else some (String.ofList (l.takeWhile fun c => !PyText.is_space c), String.ofList rest)

def is_id_char (c : Char) : Bool := c.isAlphanum || c = '_' || c = '.' || c = '-'

/-- `re.sub(r"[^A-Za-z0-9_.-]+", "-", s)`; the flag says that a run was begun. -/
def dash_runs : Bool → List Char → List Char
  | _, [] => []
  | begun, c :: rest =>
    if is_id_char c then c :: dash_runs false rest
    else if begun then dash_runs true rest
    else '-' :: dash_runs true rest

def canonical_model_id (model_id : String) : String :=
  let value := (PyText.strip model_id).toList.flatMap fun c => if c = '/' then ['-', '-'] else [c]
  let value := strip_of ".-" (String.ofList (dash_runs false value))
  if value = "" then "model" else value

/-! ### Manifests -/

/-- The hash and size that a file is locked to. -/
structure Lock where
  digest : Option String
  size : Option ℤ
  deriving DecidableEq

/-- The fields of an entry that `_lock` reads; a missing one is null, but for `size`. -/
structure Metadata where
  sha256 : Json
  sha : Json
  hash : Json
  size : Option Json
  bytes : Json

/-- An item of a list of files. -/
inductive FileItem where
  | name (s : String)
  | entry (path name file : Json) (metadata : Metadata)
  | other

/-- The field `files` or `artifacts` of a manifest. -/
inductive RawFiles where
  | missing
  | mapping (entries : List (String × Option Metadata))
  | sequence (items : List FileItem)
  | other

/-- The field `payload`, `archive` or `payload_archive`. -/
inductive RawArchive where
  | missing
  | text (s : String)
  | mapping (path rel_path file name archive : Json) (metadata : Metadata)
  | other (truthy : Bool)

structure Source where
  repo : Option Json
  revision : Option Json

/-- A manifest that is a JSON object; `source` is none if `_source` is no object. -/
structure Manifest where
  model_id : Json
  files : RawFiles
  artifacts : RawFiles
  payload : RawArchive
  archive : RawArchive
  payload_archive : RawArchive
  source : Option Source

/-- `a or b`. -/
def Json.or (a b : Json) : Json := if a.truthy then a else b

/-- `int(value)`; `none` is an exception. -/
def to_int : Json → Option ℤ
  | .int n => some n
  | .bool b => some (if b then 1 else 0)
  | .str s => PyText.int s
  | _ => none

def lock : Option Metadata → Lock
  | none => ⟨none, none⟩
  | some m =>
    let digest := Json.or (Json.or m.sha256 m.sha) m.hash
    let size := m.size.getD m.bytes
    ⟨if digest = .null then none else some (PyText.lower (PyText.strip digest.toStr)),
      if size = .null then none else to_int size⟩

/-- `rel` without the first of the prefixes of a name that it has. -/
def strip_name (rel name : String) : String :=
  if PyText.startswith rel ("models/" ++ name ++ "/") then
    String.ofList (rel.toList.drop ("models/" ++ name ++ "/").length)
  else if PyText.startswith rel (name ++ "/") then String.ofList (rel.toList.drop (name ++ "/").length)
  else rel

/-- A path that leads out of the model, or nowhere. -/
def invalid_rel (rel : String) : Bool := rel = "" || PyText.startswith rel "/" || ".." ∈ Path.parts rel

section
variable (model_id : String) (canonical_id : Option String)

/-- `_manifest_rel`; `none` is the `RuntimeError`. -/
def manifest_rel (path : String) : Option String :=
  let names := strip_of "/" model_id ::
    (canonical_id.filter (· ≠ "")).toList.map (strip_of "/")
  let rel := names.foldl strip_name (lstrip_of "./" (slashes path))
  if invalid_rel rel then none else some rel

/-- `_manifest_files`. -/
def manifest_files (m : Manifest) : Option (Dict String Lock) :=
  match (match m.files with | .missing => m.artifacts | raw => raw) with
  | .mapping entries => entries.foldlM (fun out e =>
      (manifest_rel model_id canonical_id e.1).map fun rel => out.set rel (lock e.2)) Dict.empty
  | .sequence items => items.foldlM (fun out item => match item with
      | .name s => (manifest_rel model_id canonical_id s).map fun rel => out.set rel ⟨none, none⟩
      | .entry path name file metadata =>
        if (Json.or (Json.or path name) file).truthy then
          (manifest_rel model_id canonical_id (Json.or (Json.or path name) file).toStr).map
            fun rel => out.set rel (lock metadata)
        else some out
      | .other => some out) Dict.empty
  | _ => some Dict.empty

end

def RawArchive.truthy : RawArchive → Bool
  | .missing => false
  | .text s => s ≠ ""
  | .mapping .. => true
  | .other truthy => truthy

/-- `_archive_spec`, without the path: the hash and size of the archive, if there is one; an outer
    `none` is the `RuntimeError`. -/
def archive_spec (model_id : String) (canonical_id : Option String) (m : Manifest) :
    Option (Option (String × ℤ)) :=
  match (if m.payload.truthy then m.payload
    else if m.archive.truthy then m.archive else m.payload_archive) with
  | .missing => some none
  | .mapping path rel_path file name archive metadata =>
    let path := Json.or (Json.or (Json.or (Json.or path rel_path) file) name) archive
    match path.truthy, lock metadata with
    | true, ⟨some digest, some size⟩ =>
      if digest.length = 64 && 0 < size then
        (manifest_rel model_id canonical_id path.toStr).map fun _ => some (digest, size)
      else none
    | _, _ => none
  | _ => none

/-! ### Files -/

/-- What `json.loads` makes of a file. -/
inductive Parsed where
  | undecodable
  | invalid
  | not_object
  | object (m : Manifest)

/-- A file: its bytes, the lines of its text if it is one, and what the JSON module makes of it. -/
structure File where
  bytes : List UInt8
  lines : Option (List String)
  json : Parsed

def manifest_path : Path := ⟨[], "manifest.json"⟩

def sums_path : Path := ⟨[], "SHA256SUMS"⟩

/-- An entry of a checksum list. -/
def sums_entry (out : Dict String Lock) (line : String) : Dict String Lock :=
  match two_fields line with
  | none => out
  | some (digest, name) =>
    if digest.length = 64 then out.set (slashes (lstrip_of "* " name)) ⟨some (PyText.lower digest), none⟩
    else out

/-- `_read_sums`; `none` is a text that cannot be decoded. -/
def read_sums (t : FileTree File) : Option (Dict String Lock) :=
  match t.read sums_path with
  | none => some Dict.empty
  | some f => f.lines.map fun lines => lines.foldl sums_entry Dict.empty

/-- The path that the components lead to from a directory, as `resolve(strict=True)` goes: each has
    to be there, and none leads out of the tree. -/
def resolve (t : FileTree File) : List String → List String → Option (List String)
  | at_dir, [] => some at_dir
  | at_dir, c :: rest =>
    if c = ".." then (if at_dir = [] then none else resolve t at_dir.dropLast rest)
    else if t.exist ⟨at_dir, c⟩ then resolve t (at_dir ++ [c]) rest
    else none

/-- `root / rel`, resolved. -/
def locate (t : FileTree File) (rel : String) : Option (List String) :=
  if PyText.startswith rel "/" then none else resolve t [] (Path.parts rel)

/-- The components as a path; the root of the tree is none. -/
def to_path : List String → Option Path
  | [] => none
  | c :: rest => some ⟨(c :: rest).dropLast, (c :: rest).getLast (List.cons_ne_nil c rest)⟩

/-- `(root / rel)`, if it is a file in the tree. -/
def file_at (t : FileTree File) (rel : String) : Option File := do
  let comps ← locate t rel
  let p ← to_path comps
  t.read p

def is_dir_at (t : FileTree File) (rel : String) : Bool :=
  match locate t rel with
  | none => false
  | some comps => match to_path comps with
    | none => true
    | some p => t.is_dir p

/-! ### The check -/

/-- How `_verify_model_files` ends: an error of another kind comes from a text. -/
inductive Verdict where
  | ok
  | runtime_error
  | other_error
  deriving DecidableEq

/-- What is asked of a model: the names of the model, and the files that have to be there. -/
structure Request where
  model_id : String
  canonical_id : Option String
  required : List String

section
variable (sha256 : List UInt8 → String)

/-- The file has the hash and size it is locked to. -/
def Lock.met (l : Lock) (f : File) : Bool :=
  match l.digest with
  | none => false
  | some digest => digest.length = 64 && l.size.all (fun n => n = (f.bytes.length : ℤ)) &&
      sha256 f.bytes = PyText.lower digest

def locked_file_ok (t : FileTree File) (e : String × Lock) : Bool :=
  (file_at t e.1).any (e.2.met sha256)

/-- The locks of a checksum list, for the files that the manifest names without one. -/
def add_sums (files sums : Dict String Lock) : Dict String Lock :=
  sums.items.foldl (fun files e =>
    if (files.get? e.1).any (·.digest.isSome) then files else files.set e.1 e.2) files

/-- `_model_rel`; `under_root` says what an absolute path is relative to the root of the tree. -/
def model_rel (under_root : String → Option String) (raw : String) : Option String :=
  match (if PyText.startswith raw "/" then under_root raw else some (as_posix raw)) with
  | none => none
  | some p => if lstrip_of "./" p = "." || invalid_rel (lstrip_of "./" p) then none
      else some (lstrip_of "./" p)

def required_file_ok (t : FileTree File) (under_root : String → Option String)
    (files : Dict String Lock) (raw : String) : Bool :=
  match model_rel under_root raw with
  | none => false
  | some rel =>
    if (file_at t rel).isSome then (files.get? rel).isSome
    else is_dir_at t rel && files.keys.any fun item => item = rel || PyText.startswith item (rel ++ "/")

/-- The files a model is checked for, with their locks; `none` is an exception. -/
def locks (r : Request) (m : Manifest) (sums : Dict String Lock) : Option (Dict String Lock) :=
  (manifest_files r.model_id r.canonical_id m).map fun files =>
    if files.items.isEmpty then sums else add_sums files sums

/-- The model a manifest says it is of. -/
def id_ok (r : Request) (m : Manifest) : Bool :=
  !m.model_id.truthy || canonical_model_id m.model_id.toStr ∈
    [canonical_model_id r.model_id, canonical_model_id
      ((r.canonical_id.filter (· ≠ "")).getD r.model_id)]

/-- `_verify_model_files`. -/
def verify_model_files (t : FileTree File) (under_root : String → Option String) (r : Request)
    (m : Manifest) : Verdict :=
  if !id_ok r m then .runtime_error
  else match manifest_files r.model_id r.canonical_id m, read_sums t with
    | none, _ => .runtime_error
    | some _, none => .other_error
    | some _, some sums => match locks r m sums with
      | none => .runtime_error
      | some files =>
        if files.items.isEmpty then .runtime_error
        else if files.items.all (locked_file_ok sha256 t) &&
          r.required.all (required_file_ok t under_root files) then .ok
        else .runtime_error

end

end LocalVoice.ModelCache
