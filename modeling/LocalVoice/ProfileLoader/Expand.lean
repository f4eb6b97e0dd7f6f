import LocalVoice.Lib.Dict
import LocalVoice.Lib.Json
import LocalVoice.Lib.PyText
import Mathlib.Data.Int.Notation
import Mathlib.Data.List.TakeWhile

/-! The data `server/core/profile_loader.py` works on: the JSON profile with the fields that
    `apply_profile` and `engine_resolver` read, the operator prefixes and the import-time snapshot,
    the attribution of a key to a modality (`_key_kind`) and the derived model ids. -/

namespace LocalVoice.ProfileLoader
open LocalVoice.Lib

/-- `os.environ`: unset is `none`. -/
abbrev Env := String → Option String

inductive Kind where | asr | tts
  deriving DecidableEq

/-- One entry of `required_engines`, with the fields that decide what is exported. -/
structure Engine where
  model_id : String
  env_var : String
  engine_path : String
  env_path : Option String
  required : Bool
  deriving DecidableEq

/-- `EngineSpec.exported_path`: `env_path or engine_path`. -/
def Engine.exported_path (e : Engine) : String :=
  match e.env_path with
  | some p => if p = "" then e.engine_path else p
  | none => e.engine_path

/-- A profile as `json.load` returns it. -/
structure Profile where
  name : Option Json
  env : Dict String Json
  tts_model_id : Option Json
  asr_model_id : Option Json
  required_engines : List Engine
  profile_owned_env : List String

/-- `{}`, the profile before any was applied. -/
def Profile.none : Profile := ⟨.none, .empty, .none, .none, [], []⟩

/-- A profile read from disk, with the `stem` of its path. -/
structure ProfileFile where
  stem : String
  profile : Profile

/-! ### Operator keys -/

/-- `_OPERATOR_KEY_PREFIXES`. -/
def operator_key_prefixes : List String :=
  ["OVS_", "LANGUAGE_MODE", "MODEL_DIR", "ASR_", "TTS_", "EDGE_LLM_", "QWEN3_", "KOKORO_",
    "MATCHA_", "RK_", "RKLLM_", "SHERPA_", "STREAMING_", "VOCOS_", "HF_", "CUDA_", "TRT_",
    "NVIDIA_", "WHISPER_"]

/-- `_snapshot_operator_env`: the non-empty values under an operator prefix. -/
def snapshot_operator_env (environ : Env) : Env := fun k =>
  if operator_key_prefixes.any (PyText.startswith k ·) && environ k ≠ some "" then environ k
  else none

/-- `CRITICAL_KEYS`. -/
def critical_keys : List String := ["LANGUAGE_MODE", "ASR_BACKEND", "TTS_BACKEND"]

theorem snapshot_le {environ : Env} {k v : String} (h : snapshot_operator_env environ k = some v) :
    environ k = some v := by
  unfold snapshot_operator_env at h
  split at h
  · exact h
  · cases h

/-! ### Modality of a key -/

/-- `_ASR_KEY_MARKERS`. -/
def asr_key_markers : List String := ["ASR", "PARAFORMER", "SENSEVOICE"]

/-- `_TTS_KEY_MARKERS`. -/
def tts_key_markers : List String :=
  ["TTS", "MATCHA", "KOKORO", "VOCOS", "SPARK", "MOSS", "SPEAKER_ENCODER"]

/-- `_key_kind`: `none` is a shared key. -/
def key_kind (key : String) : Option Kind :=
  let ku := PyText.upper key
  let is_asr := asr_key_markers.any (PyText.contains ku ·)
  let is_tts := tts_key_markers.any (PyText.contains ku ·)
  if is_asr && !is_tts then some .asr
  else if is_tts && !is_asr then some .tts
  else none

/-- `_in_scope` of `apply_profile`: everything for a full application, else the kind's own keys. -/
def in_scope (kind : Option Kind) (k : String) : Bool := kind.isNone || key_kind k == kind

@[simp] theorem in_scope_none (k : String) : in_scope none k = true := rfl

@[simp] theorem in_scope_some (kd : Kind) (k : String) :
    in_scope (some kd) k = true ↔ key_kind k = some kd := by
  simp [in_scope]

/-! ### Derived model ids -/

/-- `_derive_tts_model_id`. -/
def derive_tts_model_id (p : Profile) : Option String :=
  match p.tts_model_id.filter Json.truthy with
  | some m => some m.toStr
  | none =>
    (p.required_engines.find? fun e =>
      let low := PyText.lower e.model_id
      !PyText.contains low "asr" &&
        ["kokoro", "matcha", "qwen3", "piper"].any (PyText.contains low ·)).map (·.model_id)

/-- `_derive_asr_model_id`. -/
def derive_asr_model_id (p : Profile) : Option String :=
  let value :=
    match p.asr_model_id.filter Json.truthy with
    | some m => m.toStr
    | none =>
      ((p.required_engines.find? fun e =>
        PyText.contains (PyText.casefold e.model_id) "asr").map (·.model_id)).getD ""
  let folded := PyText.casefold value
  let result :=
    if folded = "qwen3-asr-0.6b" ∨ folded = "qwen/qwen3-asr-0.6b" then "qwen3-asr" else value
  if result = "" then none else some result

/-- The `derived` block: the variables every profile sets besides its `env`. -/
def derived (f : ProfileFile) : List (String × String) :=
  [("OVS_PROFILE_NAME", (f.profile.name.map Json.toStr).getD f.stem)]
    ++ ((derive_tts_model_id f.profile).map ("OVS_TTS_MODEL_ID", ·)).toList
    ++ ((derive_asr_model_id f.profile).map ("OVS_ASR_MODEL_ID", ·)).toList

/-! `$VAR` / `${VAR}` expansion of profile values: `string.Template.safe_substitute` and
    `_expand_with_profile_env`. A template is scanned into pieces once; substituting is a map over
    them, so the result depends on the mapping only through the names the template refers to
    (`safe_substitute_congr`).

        "$$"  ──▶ escaped      "$name" / "${name}"  ──▶ ref      any other char ──▶ text -/

/-- A piece of a template; a reference keeps its source text, which an unknown name falls back to. -/
inductive Piece where
  | text (c : Char)
  | escaped
  | ref (name raw : List Char)

def is_id_start (c : Char) : Bool := c == '_' || c.isAlpha
def is_id_rest (c : Char) : Bool := is_id_start c || c.isDigit

/-- The reference that `rest` (the text behind a `$`) starts with: its name, the text it takes and
    what follows. -/
def reference : List Char → Option (List Char × List Char × List Char)
  | [] => none
  | c :: r =>
    if c = '{' then
      match r.takeWhile is_id_rest, r.dropWhile is_id_rest with
      | i :: name, '}' :: tail =>
        if is_id_start i then some (i :: name, '{' :: (i :: name) ++ ['}'], tail) else none
      | _, _ => none
    else if is_id_start c then
      some (c :: r.takeWhile is_id_rest, c :: r.takeWhile is_id_rest, r.dropWhile is_id_rest)
    else none

/-- The scan of `Template.pattern` over the text, one piece for each unit of fuel. -/
def scan : ℕ → List Char → List Piece
  | 0, _ => []
  | _, [] => []
  | n + 1, c :: rest =>
    if c = '$' then
      if rest.head? = some '$' then .escaped :: scan n rest.tail
      else match reference rest with
        | some (name, used, tail) => .ref name ('$' :: used) :: scan n tail
        | none => .text '$' :: scan n rest
    else .text c :: scan n rest

def Template.pieces (value : String) : List Piece := scan value.toList.length value.toList

def Piece.raw : Piece → List Char
  | .text c => [c]
  | .escaped => ['$', '$']
  | .ref _ raw => raw

theorem reference_used {rest name used tail : List Char}
    (h : reference rest = some (name, used, tail)) : used ++ tail = rest := by
  cases rest with
  | nil => cases h
  | cons c r =>
    have hr : r.takeWhile is_id_rest ++ r.dropWhile is_id_rest = r := List.takeWhile_append_dropWhile
    simp only [reference] at h
    split at h
    · subst_vars
      split at h
      · rename_i i nm tl htake hdrop
        split at h
        · cases h
          rw [htake, hdrop] at hr
          simpa using hr
        · cases h
      · cases h
    · split at h
      · cases h
        rw [List.cons_append, hr]
      · cases h

/-- The fuel `Template.pieces` gives is enough: no character of the text is lost. -/
theorem scan_raw : ∀ (n : ℕ) (l : List Char), l.length ≤ n → (scan n l).flatMap Piece.raw = l
  | 0, l, h => by
    rw [List.length_eq_zero_iff.1 (Nat.le_zero.1 h)]; rfl
  | _ + 1, [], _ => rfl
  | n + 1, c :: rest, h => by
    have hlen : rest.length ≤ n := by simpa using h
    have htext : ∀ d, (Piece.text d :: scan n rest).flatMap Piece.raw = d :: rest := fun d => by
      simp [Piece.raw, scan_raw n rest hlen]
    rw [scan]
    split
    · subst_vars
      split
      · rename_i hd
        obtain ⟨r, rfl⟩ := List.head?_eq_some_iff.1 hd
        have : r.length ≤ n := by simp at hlen; omega
        simp [Piece.raw, scan_raw n r this]
      · split
        · rename_i name used tail href
          have hused := reference_used href
          have : tail.length ≤ n := by
            have := congrArg List.length hused
            simp only [List.length_append] at this
            omega
          simp [Piece.raw, scan_raw n tail this, hused]
        · exact htext '$'
    · exact htext c

theorem pieces_raw (value : String) : (Template.pieces value).flatMap Piece.raw = value.toList :=
  scan_raw _ _ le_rfl

/-- The variable names a template refers to. -/
def Template.refs (value : String) : List String :=
  (Template.pieces value).filterMap fun
    | .ref name _ => some (String.ofList name)
    | _ => none

/-- What a piece turns into: an unknown name stays as it was written. -/
def Piece.subst (mapping : Env) : Piece → List Char
  | .text c => [c]
  | .escaped => ['$']
  | .ref name raw => (mapping (String.ofList name)).elim raw String.toList

/-- `string.Template(value).safe_substitute(mapping)`. -/
def Template.safe_substitute (value : String) (mapping : Env) : String :=
  String.ofList ((Template.pieces value).flatMap (Piece.subst mapping))

/-- Substitution looks only at the names the template refers to. -/
theorem safe_substitute_congr {value : String} {m m' : Env}
    (h : ∀ x ∈ Template.refs value, m x = m' x) :
    Template.safe_substitute value m = Template.safe_substitute value m' := by
  unfold Template.safe_substitute
  congr 1
  refine List.flatMap_congr fun p hp => ?_
  cases p with
  | text c => rfl
  | escaped => rfl
  | ref name raw =>
    have hx : String.ofList name ∈ Template.refs value :=
      List.mem_filterMap.2 ⟨.ref name raw, hp, rfl⟩
    simp [Piece.subst, h _ hx]

/-- The string-valued entries of a profile's `env` block. -/
def profile_strings (profile_env : Dict String Json) : Env := fun k =>
  match profile_env.get? k with
  | some (.str s) => some s
  | _ => none

/-- `_expand_with_profile_env`: the profile's own strings first, then `os.environ`. -/
def expand_with_profile_env (environ : Env) (profile_env : Dict String Json) (value : String) :
    String :=
  Template.safe_substitute value fun k => (profile_strings profile_env k).or (environ k)

/-- The names that the values of the keys `used` refer to and that the profile does not define as
    strings itself: these, and no others, are looked up in `os.environ`. -/
def outer_refs (profile_env : Dict String Json) (used : String → Bool) : List String :=
  ((profile_env.items.filter fun i => used i.1).flatMap fun i => Template.refs i.2.toStr).filter
    fun x => (profile_strings profile_env x).isNone

theorem expand_congr {profile_env : Dict String Json} {used : String → Bool} {e e' : Env}
    {k : String} {value : Json} (hk : profile_env.get? k = some value) (hused : used k = true)
    (h : ∀ x ∈ outer_refs profile_env used, e x = e' x) :
    expand_with_profile_env e profile_env value.toStr =
      expand_with_profile_env e' profile_env value.toStr := by
  refine safe_substitute_congr fun x hx => ?_
  cases hs : profile_strings profile_env x with
  | some s => rfl
  | none =>
    have hitem : (k, value) ∈ profile_env.items.filter fun i => used i.1 :=
      List.mem_filter.2 ⟨Dict.mem_items.2 hk, hused⟩
    have hmem : x ∈ outer_refs profile_env used :=
      List.mem_filter.2 ⟨List.mem_flatMap.2 ⟨(k, value), hitem, hx⟩, by simp [hs]⟩
    simpa using h x hmem

example : Template.safe_substitute "${ROOT}/a-$X$$1" (fun k => if k = "ROOT" then some "/r" else none)
    = "/r/a-$X$1" := by decide

end LocalVoice.ProfileLoader
