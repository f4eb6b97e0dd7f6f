import Mathlib.Data.Finset.Sort
import LocalVoice.SparkTTSVoices.Transaction
import LocalVoice.TTSSpeakers.Registry

/-! The calls of `server/core/sparktts_voices.py` on profiles: two kinds of registration, the listing,
    the loading of an embedding and the deletion. A registration is prepared from its arguments, and
    then checked and written under the lock; the readers take a profile for what its JSON says and
    pass over whatever does not fit together.

        <safe>.json ──▶ npz_file ──▶ pair tokens ──▶ metadata, payload ──▶ entry -/

namespace LocalVoice.SparkTTSVoices
open LocalVoice.Lib

/-- An array, flattened: the number of its elements, and its bytes as `float32`. -/
structure Arr where
  size : ℕ
  float32 : List UInt8
  deriving DecidableEq

/-- What the readers make of the files beside their pair tokens: the elements of a JSON list, and the
    arrays of an archive. -/
structure Contents (β : Type) where
  codec : Codec β (Dict String Arr)
  items : Json → Option (List Json)
  of_list : List String → Json
  items_of_list : ∀ l, items (of_list l) = some (l.map Json.str)
  arrays : β → Option (String → Option Arr)
  arrays_savez : ∀ a t, ∃ f, arrays (codec.savez a t) = some f ∧
    ∀ key, key ≠ "__pair_token" → f key = a.get? key

/-! ### Metadata -/

def spark_model_id : String := "sparktts-0p5b"
def qwen_base_model_id : String := "qwen3-tts-0.6b-base"

/-- `_PROFILE_TYPES`. -/
inductive ProfileType where | voice_profile | speaker_embedding
  deriving DecidableEq

def ProfileType.name : ProfileType → String
  | .voice_profile => "voice_profile"
  | .speaker_embedding => "speaker_embedding"

/-- `_canonical_model_id`. -/
def canonical_model_id (model_id : Option Json) (default : Option String) : Option String :=
  match model_id with
  | none | some .null => default
  | some v =>
    let value := TTSSpeakers.canonical_model_id (PyText.strip v.toStr)
    if value = "" then default else some value

/-- The loop of `_normalise_compatible_models`; `none` is the `ValueError`. -/
def add_models : List Json → List String → Option (List String)
  | [], out => some out
  | value :: rest, out =>
    match canonical_model_id (some value) none with
    | none => none
    | some canonical => add_models rest (if canonical ∈ out then out else out ++ [canonical])

/-- The metadata of a profile as the readers return it. -/
structure Metadata where
  model_id : String
  profile_type : ProfileType
  compatible_models : List String
  legacy : Bool

section
variable {β : Type} (C : Contents β)

/-- `_normalise_compatible_models`. -/
def normalise_compatible_models (model_id : String) (compatible_models : Option Json) :
    Option (List String) :=
  match compatible_models.filter (· ≠ .null) with
  | none => add_models [.str model_id] []
  | some v => (C.items v).bind fun l => add_models (.str model_id :: l) []

/-- The archive under a name has 32 `global_ids`. -/
def has_global_ids (f : String → Option Arr) : Bool := (f "global_ids").any (·.size = 32)

/-- `_profile_payload_matches`. -/
def profile_payload_matches (profile_type : ProfileType) (npz : Option β) : Bool :=
  match npz.bind C.arrays with
  | none => false
  | some f =>
    match profile_type with
    | .voice_profile => has_global_ids f
    | .speaker_embedding => (f "speaker_embedding").isSome || (f "d_vector").isSome

def profile_type_of (v : Json) : Option ProfileType :=
  if v = .str "voice_profile" then some .voice_profile
  else if v = .str "speaker_embedding" then some .speaker_embedding
  else none

/-- `_profile_metadata` of JSON data and the archive under the name beside it. -/
def profile_metadata (j : String → Option Json) (npz : Option β) : Option Metadata :=
  match j "model_id", j "profile_type", j "compatible_models" with
  | some model_id, some type, some compatible =>
    match canonical_model_id (some model_id) none, profile_type_of type with
    | some model, some ptype =>
      if profile_payload_matches C ptype npz then
        match normalise_compatible_models C model (some compatible) with
        | some models => if model ∈ models then some ⟨model, ptype, models, false⟩ else none
        | none => none
      else none
    | _, _ => none
  | none, none, none =>
    if (npz.bind C.arrays).any has_global_ids then
      some ⟨spark_model_id, .voice_profile, [spark_model_id], true⟩
    else none
  | _, _, _ => none

/-- `_pair_token_matches`. -/
def pair_token_matches (j : String → Option Json) (npz : Option β) : Bool :=
  match npz.bind C.codec.npz_token with
  | none => false
  | some token => json_pair_token j = token

/-! ### Listing and loading -/

/-- An entry of a listing, `has_ref_semantic` apart from the length it is computed from. -/
structure Entry where
  voice_id : Json
  «metadata» : Metadata
  sample_rate : Json
  ref_semantic_len : Json
  ref_text : Option Json
  source_meta : Option Json

def Entry.has_ref_semantic (e : Entry) : Bool := e.ref_semantic_len.truthy

/-- `value or default` of a field of JSON data. -/
def field_or (value : Option Json) (default : String) : Json :=
  match value with
  | some v => if v.truthy then v else .str default
  | none => .str default

/-- What the listing goes through: the names of JSON files that are not hidden. -/
def is_listed_name (n : String) : Bool :=
  !PyText.startswith n "." && PyText.endswith n ".json" && decide (EntryName n)

/-- `os.path.splitext(name)[0]` of the name of a JSON file. -/
def stem (n : String) : String := String.ofList (n.toList.take (n.toList.length - 5))

/-- The body of the loop of `_list_from_disk`, without filters. -/
def listed (d : Dir β) (name : String) : Option Entry :=
  match (read d name).bind C.codec.load_json with
  | none => none
  | some j =>
    match field_or (j "npz_file") (stem name ++ ".npz") with
    | .str npz_name =>
      if '/' ∈ npz_name.toList then none
      else if !pair_token_matches C j (read d npz_name) then none
      else (profile_metadata C j (read d npz_name)).map fun m =>
        { voice_id := field_or (j "voice_id") (stem name)
          «metadata» := m
          sample_rate := (j "sample_rate").getD (.int 16000)
          ref_semantic_len := (j "ref_semantic_len").getD (.int 0)
          ref_text := j "ref_text"
          source_meta := j "source_meta" }
    | _ => none

/-- The filters of a listing. -/
structure Filters where
  model_id : Option String
  profile_type : Option String
  compatible_model : Option String

/-- A filter that is not given, or given as nothing, passes. -/
def passes (requested : Option String) (p : String → Bool) : Bool :=
  match requested with
  | none => true
  | some r => r = "" || p r

def Filters.admits (f : Filters) (e : Entry) : Bool :=
  passes (canonical_model_id (f.model_id.map Json.str) none) (· = e.metadata.model_id) &&
    passes f.profile_type (· = e.metadata.profile_type.name) &&
    passes (canonical_model_id (f.compatible_model.map Json.str) none)
      e.metadata.compatible_models.contains

/-- `_list_from_disk`: the entries in the order of the names. -/
def list_from_disk (d : Dir β) (f : Filters) : List Entry :=
  (((d.keys.filter fun n => is_listed_name n).sort (· ≤ ·)).filterMap (listed C d)).filter
    f.admits

/-- What `load_embedding_voice` reads of a directory. -/
def embedding_of (d : Dir β) (voice_id : String) (model_id : Option String) : Option (List UInt8) := do
  let s ← safe_id voice_id
  let j ← (read d (json_name s)).bind C.codec.load_json
  guard (j "voice_id" = some (.str voice_id))
  let m ← profile_metadata C j (read d (npz_name s))
  guard (m.profile_type = .speaker_embedding)
  guard (passes (canonical_model_id (model_id.map Json.str) none) m.compatible_models.contains)
  guard (passes (canonical_model_id (model_id.map Json.str) none) (· = m.model_id))
  guard (field_or (j "npz_file") (npz_name s) = .str (npz_name s))
  guard (pair_token_matches C j (read d (npz_name s)))
  let f ← (read d (npz_name s)).bind C.arrays
  let a ← (f "speaker_embedding").or (f "d_vector")
  return a.float32

/-! ### What is registered -/

/-- A registration once its arguments are checked: the id, its file id, and what is written. -/
structure Prepared where
  voice_id : String
  safe : SafeId
  json_data : Dict String Json
  npz_arrays : Dict String Arr

/-- The arguments of the two registrations, the uploaded files as they parse. -/
inductive Registration where
  | profile (json : Option (Dict String Json)) (npz : Option (Dict String Arr))
      (voice_id model_id : Option String) (compatible_models : Option Json)
  | embedding (voice_id : String) (embedding_bytes : List UInt8) (sample_rate : ℤ)
      (ref_text : Option String) (source_meta : Option Json) (model_id : Option String)
      (compatible_models : Option Json)

/-- `value or other` of a text that may be missing. -/
def text_or (value : Option String) (other : Option Json) : Option Json :=
  match value with
  | some v => if v = "" then other else some (.str v)
  | none => other

/-- `register_from_profile_files` in front of the lock; `none` is a `ValueError`. -/
def prepare_profile (json : Option (Dict String Json)) (npz : Option (Dict String Arr))
    (voice_id model_id : Option String) (compatible_models : Option Json) : Option Prepared := do
  let j ← json
  match text_or voice_id (j.get? "voice_id") with
  | some (.str vid) =>
    guard (vid ≠ "")
    guard (canonical_model_id (text_or model_id (j.get? "model_id")) (some spark_model_id) =
      some spark_model_id)
    guard (j.get? "profile_type" ∈ [none, some .null, some (.str ProfileType.voice_profile.name)])
    let models ← normalise_compatible_models C spark_model_id
      ((compatible_models.filter (· ≠ .null)).or (j.get? "compatible_models"))
    let arrays ← npz
    guard (has_global_ids arrays.get?)
    let s ← safe_id vid
    return ⟨vid, s, j.update
      [("voice_id", .str vid), ("model_id", .str spark_model_id),
        ("profile_type", .str ProfileType.voice_profile.name),
        ("compatible_models", C.of_list models), ("npz_file", .str (npz_name s))],
      arrays.erase "__pair_token"⟩
  | _ => none

/-- `register_embedding_voice` in front of the lock; `none` is a `ValueError`. -/
def prepare_embedding (voice_id : String) (embedding_bytes : List UInt8) (sample_rate : ℤ)
    (ref_text : Option String) (source_meta : Option Json) (model_id : Option String)
    (compatible_models : Option Json) : Option Prepared := do
  guard (voice_id ≠ "")
  guard (embedding_bytes ≠ [] ∧ embedding_bytes.length % 4 = 0)
  let s ← safe_id voice_id
  let model ← canonical_model_id (model_id.map Json.str) (some qwen_base_model_id)
  let models ← normalise_compatible_models C model compatible_models
  return ⟨voice_id, s, Dict.update .empty
    [("voice_id", .str voice_id), ("npz_file", .str (npz_name s)),
      ("profile_type", .str ProfileType.speaker_embedding.name), ("model_id", .str model),
      ("compatible_models", C.of_list models),
      ("embedding_dim", .int (embedding_bytes.length / 4 : ℕ)), ("embedding_dtype", .str "float32"),
      ("sample_rate", .int sample_rate), ("ref_text", (ref_text.map Json.str).getD .null),
      ("source_meta", source_meta.getD .null)],
    Dict.empty.set "speaker_embedding" ⟨embedding_bytes.length / 4, embedding_bytes⟩⟩

def prepare : Registration → Option Prepared
  | .profile json npz voice_id model_id compatible_models =>
    prepare_profile C json npz voice_id model_id compatible_models
  | .embedding voice_id embedding_bytes sample_rate ref_text source_meta model_id compatible =>
    prepare_embedding C voice_id embedding_bytes sample_rate ref_text source_meta model_id compatible

/-- `_assert_safe_id_available`: nothing has the file id, or a complete profile of that voice. -/
def safe_id_available (d : Dir β) (voice_id : String) (s : SafeId) : Bool :=
  if (d.lookup (json_name s)).isNone && (d.lookup (npz_name s)).isNone then true
  else if (d.lookup (json_name s)).isSome ≠ (d.lookup (npz_name s)).isSome then false
  else match (read d (json_name s)).bind C.codec.load_json with
    | none => false
    | some j =>
      decide (j "voice_id" = some (.str voice_id)) &&
        decide ((j "npz_file").getD (.str (npz_name s)) = .str (npz_name s)) &&
        pair_token_matches C j (read d (npz_name s)) &&
        (profile_metadata C j (read d (npz_name s))).any (!·.legacy)

/-- The check of `delete_voice` on a profile of which both files exist. -/
def owned_by (d : Dir β) (voice_id : String) (s : SafeId) : Bool :=
  decide ((((read d (json_name s)).bind C.codec.load_json).bind (· "voice_id")) =
    some (.str voice_id))

/-! ### The calls -/

/-- What a deletion comes to. -/
inductive Deletion where | deleted | missing | raised
  deriving DecidableEq

section
variable {C} [DecidableEq β] (os : Os C.codec) (root : Root)

/-- `list_voices`, which recovers once itself and once in the scan. -/
def list_voices (f : Filters) : Prog (Dir β) (List Entry) := do
  recover_transactions os root
  recover_transactions os root
  let d ← .get
  return list_from_disk C d f

def load_embedding_voice (voice_id : String) (model_id : Option String) :
    Prog (Dir β) (Option (List UInt8)) :=
  if voice_id = "" then pure none
  else do
    recover_transactions os root
    let d ← .get
    return embedding_of C d voice_id model_id

/-- The registrations under the lock; `none` if the file id is not available. -/
def register (t : Token) (p : Prepared) : Prog (Dir β) (Option Outcome) := do
  recover_transactions os root
  let d ← .get
  if safe_id_available C d p.voice_id p.safe then do
    let out ← transaction os root t p.safe (.write p.json_data p.npz_arrays)
    return some out
  else return none

/-- `delete_voice`. -/
def delete_voice (t : Token) (voice_id : String) : Prog (Dir β) Deletion :=
  match safe_id voice_id with
  | none => pure .raised
  | some s => do
    recover_transactions os root
    let d ← .get
    if (d.lookup (json_name s)).isNone && (d.lookup (npz_name s)).isNone then return .missing
    if (d.lookup (json_name s)).isSome ≠ (d.lookup (npz_name s)).isSome then return .raised
    if !owned_by C d voice_id s then return .raised
    let out ← transaction os root t s .delete
    return if out = .committed then .deleted else .raised

end

end

end LocalVoice.SparkTTSVoices
