import Mathlib.Logic.Function.Basic
import LocalVoice.Lib.Dict
import LocalVoice.Lib.Json
import LocalVoice.Lib.PyInt

/-! `server/core/tts_speakers.py`: the speaker table of a model is layered from the presets, the file
    and the environment, and cached; `register_speaker` and `unregister_speaker` change the file.

        lookup:    canonical id ──▶ selector alias ──▶ cache, else presets ◀ file ◀ environment
        register:  file[model_id][str(id)] := record ──▶ cache.pop(model_id) -/

namespace LocalVoice.TTSSpeakers
open LocalVoice.Lib

inductive SpeakerType where | preset | embedding | intrinsic
  deriving DecidableEq

/-- The `meta` of a record: an object, or whatever else the file has there. -/
inductive Meta where
  | record (d : Dict String Json)
  | other (value : Json)

structure SpeakerSpec where
  id : ℤ
  type : SpeakerType
  label : String
  payload : String
  «meta» : Option Meta

/-- A JSON object in a speaker table, with the fields that are read. -/
structure Fields where
  type : Option Json
  label : Option Json
  name : Option Json
  speaker_embedding_b64 : Option Json
  payload : Option Json
  embedding_b64 : Option Json
  speaker : Option Json
  «meta» : Option Meta

inductive Entry where
  | object (fields : Fields)
  | other (value : Json)

/-- Why `_read_speaker_file_for_update` refuses a file. -/
inductive UpdateFailure where
  | read_failed
  | root_not_an_object
  | invalid_model_table
  | invalid_speaker_id
  | invalid_speaker_entry

/-- What the functions raise: `ValueError`s, among them the `UnicodeDecodeError` of the file, but for
    the `AttributeError` of a model table that is no object and the `RuntimeError` of an unsafe
    update. -/
inductive Error where
  | payload_too_large (chars : ℕ)
  | invalid_base64
  | not_float32 (bytes : ℕ)
  | empty_payload
  | missing_embedding (sid : ℤ)
  | unsupported_type (sid : ℤ) (type : String)
  | invalid_id (key : String)
  | no_items
  | undecodable
  | unsafe_update (why : UpdateFailure)
  | overwrite_preset (sid : ℤ) (model_id : String)
  | unregister_preset (sid : ℤ) (model_id : String)
  | unknown_speaker (sid : ℤ) (model_id : String)

/-! ### The built-in tables -/

/-- `_MODEL_ALIASES`. -/
def model_aliases : List (String × String) :=
  [("qwen3-tts-base", "qwen3-tts-0.6b-base"), ("qwen3-tts-0.6b", "qwen3-tts-0.6b-base")]

def canonical_model_id (model_id : String) : String :=
  (model_aliases.lookup (PyText.strip model_id)).getD (PyText.strip model_id)

/-- `_SELECTOR_ALIASES`. -/
def selector_aliases : List (String × List (String × ℤ)) :=
  [("qwen3-tts-customvoice", [("0", 3065), ("default", 3065)]),
   ("qwen3-tts-0.6b-base", [("default", 0), ("reference", 0), ("default reference voice", 0)]),
   ("sparktts-0p5b", [("default", 0), ("female_moderate_moderate", 0)])]

/-- `_selector_alias_id`. -/
def selector_alias_id (speaker_id : ℤ) (model_id : String) : ℤ :=
  (((selector_aliases.lookup (canonical_model_id model_id)).getD []).lookup
    (toString speaker_id)).getD speaker_id

def kokoro_labels : List String :=
  ["af_heart", "af_bella", "af_nicole", "af_aoede", "af_kore", "af_sarah", "af_nova", "af_sky",
   "af_alloy", "af_jessica", "af_river", "af_miley", "af_seraph", "af_eve", "am_adam", "am_echo",
   "am_eric", "am_fenrir", "am_liam", "am_michael", "am_onyx", "am_puck", "am_santa", "bf_alice",
   "bf_emma", "bf_isabella", "bf_lily", "bm_daniel", "bm_fable", "bm_george", "bm_lewis", "ef_dora",
   "em_alex", "ff_siwis", "hf_alpha", "hf_beta", "hm_omega", "hm_psi", "if_irina", "im_nikolai",
   "jf_alpha", "jf_nezumi", "jf_gorudo", "jm_fLEMING", "pf_dora", "pm_alex", "pm_santa",
   "zf_xiaobei", "zf_xiaoni", "zf_xiaoxiao", "zf_xiaoyi", "zm_yunyang", "zm_yunxi"]

def preset (id : ℤ) (label payload : String) : SpeakerSpec := ⟨id, .preset, label, payload, none⟩

def intrinsic (label : String) : SpeakerSpec := ⟨0, .intrinsic, label, "", none⟩

def qwen3_presets : List SpeakerSpec :=
  [preset 0 "Default" "", preset 2301 "Female 1" "2301", preset 2302 "Female 2" "2302"]

def qwen3_customvoice_presets : List SpeakerSpec :=
  [preset 3065 "vivian" "3065", preset 3061 "ryan" "3061", preset 2861 "aiden" "2861",
   preset 3066 "serena" "3066", preset 2878 "dylan" "2878", preset 2875 "eric" "2875",
   preset 3010 "uncle_fu" "3010", preset 2873 "ono_anna" "2873", preset 2864 "sohee" "2864"]

def kokoro_presets : List SpeakerSpec :=
  kokoro_labels.zipIdx.map fun p => preset p.2 p.1 (toString p.2)

def single_speaker : List SpeakerSpec := [preset 0 "Default" "0"]

def sparktts_presets : List SpeakerSpec :=
  [preset 0 "Female · moderate pitch · moderate speed" "female_moderate_moderate"]

/-- `_PRESETS`, by model id. -/
def all_presets : List (String × List SpeakerSpec) :=
  [("qwen3-tts", qwen3_presets),
   ("qwen3-tts-0.6b-base", [intrinsic "Default reference voice"]),
   ("kokoro-convonly-v1_0-rk3576", [intrinsic "Bundle language default"]),
   ("kokoro-convonly-v1_0-rk3588", [intrinsic "Bundle language default"]),
   ("qwen3-tts-customvoice", qwen3_customvoice_presets),
   ("kokoro-multi-lang-v1_0", kokoro_presets),
   ("matcha-icefall-zh-en", single_speaker),
   ("matcha-icefall-zh-en.rknn", single_speaker),
   ("sherpa", single_speaker),
   ("sparktts-0p5b", sparktts_presets)]

def presets (model_id : String) : List SpeakerSpec := (all_presets.lookup model_id).getD []

/-- A table in memory, by speaker id. -/
abbrev Table := ℤ → Option SpeakerSpec

def preset_table (model_id : String) : Table := fun sid => (presets model_id).find? (·.id = sid)

/-! ### Entries -/

/-- `value.get(first, value.get("name", ""))` as a text. -/
def field_or_name (field name : Option Json) : String :=
  ((field.or name).getD (.str "")).toStr

/-- `value or rest` as a text. -/
def truthy_or (value : Option Json) (rest : String) : String :=
  match value with
  | some v => if v.truthy then v.toStr else rest
  | none => rest

def Fields.entry_type (f : Fields) : String :=
  PyText.lower (PyText.strip ((f.type.getD (.str "preset")).toStr))

def Fields.embedding_payload (f : Fields) : String :=
  truthy_or f.speaker_embedding_b64 (truthy_or f.payload (truthy_or f.embedding_b64 ""))

/-- `_parse_speaker_entry`. -/
def parse_speaker_entry (sid : ℤ) : Entry → Except Error SpeakerSpec
  | .object f =>
    if f.entry_type = "embedding" then
      if f.embedding_payload = "" then .error (.missing_embedding sid)
      else .ok ⟨sid, .embedding, field_or_name f.label f.name, f.embedding_payload, f.meta⟩
    else if f.entry_type = "intrinsic" then
      .ok ⟨sid, .intrinsic, field_or_name f.label f.name, "", none⟩
    else if f.entry_type = "preset" then
      .ok (preset sid (field_or_name f.label f.name) (field_or_name f.speaker f.name))
    else .error (.unsupported_type sid f.entry_type)
  | .other value => .ok (preset sid value.toStr value.toStr)

/-- The entry `register_speaker` writes for a record. -/
def entry_of (spec : SpeakerSpec) : Entry :=
  .object ⟨some (.str "embedding"), some (.str spec.label), none, some (.str spec.payload), none,
    none, none, spec.meta⟩

/-! ### The file -/

/-- The object in the file: a table for each model, none where the value is no object. -/
abbrev FileData := Dict String (Option (Dict String Entry))

inductive SpeakersFile where
  | missing
  | unreadable
  | undecodable
  | other_root
  | data (d : FileData)

/-- `file_data.get(model_id) or {}`. -/
def model_table (d : FileData) (model_id : String) : Dict String Entry :=
  ((d.get? model_id).getD none).getD Dict.empty

def check_entry (p : String × Entry) : Except Error Unit :=
  match PyText.int p.1 with
  | none => .error (.unsafe_update .invalid_speaker_id)
  | some sid =>
    match parse_speaker_entry sid p.2 with
    | .error _ => .error (.unsafe_update .invalid_speaker_entry)
    | .ok _ => .ok ()

def check_model (p : String × Option (Dict String Entry)) : Except Error Unit :=
  match p.2 with
  | none => .error (.unsafe_update .invalid_model_table)
  | some table => table.items.forM check_entry

/-- `_read_speaker_file_for_update`. -/
def read_speaker_file_for_update : SpeakersFile → Except Error FileData
  | .missing => .ok Dict.empty
  | .unreadable | .undecodable => .error (.unsafe_update .read_failed)
  | .other_root => .error (.unsafe_update .root_not_an_object)
  | .data d => (d.items.forM check_model).map fun _ => d

/-- `_atomic_write_json`, which sorts the keys. -/
def write_json (d : FileData) : SpeakersFile :=
  .data (d.mapValues (Option.map Dict.sort_keys)).sort_keys

/-- The loop of `_load_file_speakers` over a model's entries. -/
def load_entries : List (String × Entry) → Table → Except Error Table
  | [], mapping => .ok mapping
  | (key, entry) :: rest, mapping =>
    match PyText.int key with
    | none => .error (.invalid_id key)
    | some sid =>
      match parse_speaker_entry sid entry with
      | .error e => .error e
      | .ok spec => load_entries rest (Function.update mapping sid (some spec))

def load_file_speakers (mapping : Table) (model_id : String) : SpeakersFile → Except Error Table
  | .missing | .unreadable | .other_root => .ok mapping
  | .undecodable => .error .undecodable
  | .data d =>
    match d.get? model_id with
    | none => .ok mapping
    | some none => .error .no_items
    | some (some table) => load_entries table.items mapping

/-! ### Lookups -/

/-- The module's state: the file, the cache, the overrides that were parsed at import and
    `OVS_TTS_ALLOW_UNMAPPED_SPEAKER_ID`. -/
structure Registry where
  file : SpeakersFile
  cache : String → Option Table
  env_overrides : Table
  allow_unmapped : Bool

/-- A table built afresh from presets, file and environment. -/
def Registry.build (s : Registry) (model_id : String) : Except Error Table :=
  (load_file_speakers (preset_table model_id) model_id s.file).map fun mapping sid =>
    (s.env_overrides sid).or (mapping sid)

/-- `_load_speaker_map`. -/
def Registry.load_speaker_map (s : Registry) (model_id : String) : Except Error (Table × Registry) :=
  match s.cache (canonical_model_id model_id) with
  | some table => .ok (table, s)
  | none => (s.build (canonical_model_id model_id)).map fun table =>
      (table, { s with cache := Function.update s.cache (canonical_model_id model_id) (some table) })

/-- What `speaker_spec_for_id` makes of a table. -/
def Registry.answer (s : Registry) (model_id : String) (sid : ℤ) :
    Option SpeakerSpec → Except Error (Option SpeakerSpec)
  | some spec => .ok (some spec)
  | none =>
    if s.allow_unmapped then .ok (some (preset sid (toString sid) (toString sid)))
    else .error (.unknown_speaker sid model_id)

def Registry.speaker_spec_for_id (s : Registry) (speaker_id : Option ℤ) (model_id : String) :
    Except Error (Option SpeakerSpec × Registry) :=
  match speaker_id with
  | none => .ok (none, s)
  | some i =>
    (s.load_speaker_map (canonical_model_id model_id)).bind fun p =>
      (s.answer (canonical_model_id model_id) (selector_alias_id i (canonical_model_id model_id))
        (p.1 (selector_alias_id i (canonical_model_id model_id)))).map fun spec => (spec, p.2)

/-! ### Registration -/

def is_base64 (c : Char) : Bool := c.isAlphanum || c = '+' || c = '/'

/-- `base64.b64decode(payload, validate=True)`: how many bytes it gives. -/
def b64decode_length (payload : List Char) : Option ℕ :=
  if payload.length % 4 = 0 ∧ payload.dropWhile is_base64 ∈ [[], ['='], ['=', '=']] then
    some (payload.length / 4 * 3 - (payload.dropWhile is_base64).length)
  else none

/-- `_validate_embedding_payload`. -/
def validate_embedding_payload (payload : String) : Except Error Unit :=
  if 4 * 1024 * 2 < payload.toList.length then .error (.payload_too_large payload.toList.length)
  else match b64decode_length payload.toList with
    | none => .error .invalid_base64
    | some n =>
      if n % 4 ≠ 0 then .error (.not_float32 n)
      else if n = 0 then .error .empty_payload
      else .ok ()

/-- The arguments of `register_speaker`. -/
structure Registration where
  model_id : String
  payload : String
  label : String
  «meta» : Option (Dict String Json)
  speaker_id : Option ℤ

def setdefault (d : Dict String Json) (key value : String) : Dict String Json :=
  if (d.get? key).isSome then d else d.set key (.str value)

/-- The meta of the record; `created` is the time it is made. -/
def Registration.full_meta (r : Registration) (created : String) : Dict String Json :=
  setdefault (setdefault (r.meta.getD Dict.empty) "model_id" r.model_id) "created" created

/-- `existing_ids`. -/
def existing_ids (d : FileData) (model_id : String) : List ℤ :=
  (presets model_id).map (·.id) ++ (model_table d model_id).keys.filterMap PyText.int

/-- `max(ids, default=0)`. -/
def max_of : List ℤ → ℤ
  | [] => 0
  | i :: rest => rest.foldl max i

/-- The id of the new record: the next free one from 10000 on, or the one asked for unless it is a
    preset's. -/
def Registry.choose_id (s : Registry) (d : FileData) (model_id : String) :
    Option ℤ → Except Error (ℤ × Registry)
  | none => .ok (max (max_of (existing_ids d model_id) + 1) 10000, s)
  | some sid =>
    if sid ∈ existing_ids d model_id then
      (s.speaker_spec_for_id (some sid) model_id).bind fun p =>
        if p.1.any (·.type = .preset) then .error (.overwrite_preset sid model_id)
        else .ok (sid, p.2)
    else .ok (sid, s)

def Registration.spec (r : Registration) (created : String) (id : ℤ) : SpeakerSpec where
  id := id
  type := .embedding
  label := if r.label = "" then s!"voice-{id}" else r.label
  payload := r.payload
  «meta» := some (.record (r.full_meta created))

/-- `file_data.setdefault(model_id, {})[str(speaker_id)] = …`. -/
def put (d : FileData) (model_id : String) (spec : SpeakerSpec) : FileData :=
  d.set model_id (some ((model_table d model_id).set (toString spec.id) (entry_of spec)))

/-- The file after the registration, and the cache without the model's table. -/
def Registry.publish (s : Registry) (d : FileData) (model_id : String) : Registry :=
  { s with file := write_json d, cache := Function.update s.cache model_id none }

def Registry.register_speaker (s : Registry) (r : Registration) (created : String) :
    Except Error (SpeakerSpec × Registry) := do
  validate_embedding_payload r.payload
  let d ← read_speaker_file_for_update s.file
  let p ← s.choose_id d r.model_id r.speaker_id
  return (r.spec created p.1, p.2.publish (put d r.model_id (r.spec created p.1)) r.model_id)

/-- `del data[model_id][str(speaker_id)]`, with the table when it is empty then. -/
def remove (d : FileData) (model_id : String) (sid : ℤ) : FileData :=
  if ((model_table d model_id).erase (toString sid)).items = [] then d.erase model_id
  else d.set model_id (some ((model_table d model_id).erase (toString sid)))

/-- The removal; a cached table only loses the id. -/
def Registry.forget (s : Registry) (d : FileData) (model_id : String) (sid : ℤ) : Registry :=
  { s with
    file := write_json (remove d model_id sid)
    cache := Function.update s.cache model_id
      ((s.cache model_id).map fun table => Function.update table sid none) }

def Registry.unregister_speaker (s : Registry) (model_id : String) (speaker_id : ℤ) :
    Except Error (Bool × Registry) := do
  let d ← read_speaker_file_for_update s.file
  match (model_table d model_id).get? (toString speaker_id) with
  | some entry =>
    let spec ← parse_speaker_entry speaker_id entry
    if spec.type ≠ .embedding then .error (.unregister_preset speaker_id model_id)
    else return (true, s.forget d model_id speaker_id)
  | none =>
    if (preset_table model_id speaker_id).isSome then
      .error (.unregister_preset speaker_id model_id)
    else return (false, s)

end LocalVoice.TTSSpeakers
