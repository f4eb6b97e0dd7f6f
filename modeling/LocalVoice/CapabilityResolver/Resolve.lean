import LocalVoice.Lib.Json
import LocalVoice.Lib.PyInt

/-! `resolve` of `server/core/capability_resolver.py`: from the concurrency descriptors of the two
    backends, the profile and the operator's environment to the session ceiling, the width of the
    ASR gate and its queue, the size of the TTS executor and the mode of the coordinator. -/

namespace LocalVoice.CapabilityResolver
open LocalVoice.Lib

/-- `os.environ`, or the mapping given in its place. -/
abbrev Env := String → Option String

/-- `env_map.get(k)` where an empty value counts as none. -/
def Env.nonempty (env : Env) (k : String) : Option String := (env k).filter (· ≠ "")

/-- The fields of a `ConcurrencyCapability` that decide something here. -/
structure ConcurrencyCapability where
  supports_parallel : Bool
  max_concurrent : Option ℕ
  /-- A hard ceiling is at least 1; `none` is no fixed cap. -/
  positive : ∀ n, max_concurrent = some n → 0 < n

/-- The neutral descriptor of a modality the profile does not have. -/
def inactive_cap : ConcurrencyCapability := ⟨true, none, nofun⟩

/-- The descriptor the executor is sized by when the TTS backend is not a registered one. -/
def unknown_cap : ConcurrencyCapability := ⟨false, none, nofun⟩

/-- An `execution_policy` object. -/
structure Policy where
  mode : Option Json
  cross_modal_overlap : Json

/-- A profile with the fields `resolve` reads, `null` for one that is missing; `env` is none when it
    is not an object. -/
structure Profile where
  name : Json
  env : Option (String → Json)
  asr_backend : Json
  tts_backend : Json
  execution_policy : Option Policy
  max_concurrent_sessions : Json

/-- What `resolve` is called with and what it looks up: its arguments, `os.environ`, the descriptors
    found for the profile's backends and the names in the TTS registry. -/
structure Setup where
  profile : Profile
  policy : Option Policy
  env_map : Env
  environ : Env
  tts_backend_name : String
  asr_found : ConcurrencyCapability
  tts_found : ConcurrencyCapability
  tts_registry : String → Bool

structure ResolvedCapability where
  session_ceiling : Option ℕ
  executor_max_workers : ℕ
  coordinator_mode : String
  ceiling_source : String
  asr_cap : ConcurrencyCapability
  tts_cap : ConcurrencyCapability
  clamp_warnings : List String
  diar_cap : Option ConcurrencyCapability
  asr_infer_concurrency : ℕ
  asr_queue_depth : Option ℕ

/-! ### Reading the settings -/

/-- The `ValueError`s of the two parsers, each with the label of the setting. -/
inductive ValueError where
  | not_an_integer (label : String) (value : Json)
  | not_positive (label : String) (n : ℤ)
  | negative (label : String) (n : ℤ)

/-- What the two parsers share: nothing, an integer as it is, or the text of the value. -/
def parse_int (label : String) : Json → Except ValueError (Option ℤ)
  | .null => .ok none
  | .int n => .ok (some n)
  | v =>
    if PyText.strip v.toStr = "" then .ok none
    else match PyText.int (PyText.strip v.toStr) with
      | some n => .ok (some n)
      | none => .error (.not_an_integer label v)

def parse_positive_int (label : String) (value : Json) : Except ValueError (Option ℕ) :=
  match parse_int label value with
  | .error e => .error e
  | .ok none => .ok none
  | .ok (some n) => if n ≤ 0 then .error (.not_positive label n) else .ok (some n.toNat)

def parse_non_negative_int (label : String) (value : Json) : Except ValueError (Option ℕ) :=
  match parse_int label value with
  | .error e => .error e
  | .ok none => .ok none
  | .ok (some n) => if n < 0 then .error (.negative label n) else .ok (some n.toNat)

/-- A value of the environment as the parsers receive it. -/
def Env.value (env : Env) (k : String) : Json := (env k).elim .null .str

/-! ### The target -/

/-- `_TARGET_DEFAULTS.get(target, _UNKNOWN_DEFAULT)`. -/
def target_default : String → ℕ
  | "orin-nx" => 2
  | "orin-nano" => 1
  | "rk" => 1
  | "desktop" => 4
  | _ => 1

/-- `str(value or "")`. -/
def text_or_empty (v : Json) : String := if v.truthy then v.toStr else ""

/-- `str(env_block.get(k) or "") or os.environ.get(k, "")`. -/
def Setup.env_text (s : Setup) (k : String) : String :=
  let own := text_or_empty ((s.profile.env.map (· k)).getD .null)
  if own = "" then (s.environ k).getD "" else own

def Setup.infer_target (s : Setup) : String :=
  let name := PyText.lower (text_or_empty s.profile.name)
  if PyText.contains name "orin-nx" || PyText.contains name "orin_nx" then "orin-nx"
  else if PyText.contains name "orin-nano" || PyText.contains name "orin_nano" then "orin-nano"
  else if PyText.contains name "rk" || PyText.contains name "rockchip" ||
    PyText.contains name "radxa" then "rk"
  else if PyText.contains name "desktop" || PyText.contains name "ci" then "desktop"
  else if PyText.lower (s.env_text "RK_PLATFORM") ≠ "" then "rk"
  else if PyText.lower (s.env_text "LANGUAGE_MODE") = "rk" then "rk"
  else "unknown"

/-! ### The ceiling of the backends -/

def show_cap : Option ℕ → String
  | none => "inf"
  | some n => toString n

def aggregate_ceiling (asr_cap tts_cap : ConcurrencyCapability)
    (extra : List (String × ConcurrencyCapability)) : Option ℕ × String :=
  let items := ("asr", asr_cap) :: ("tts", tts_cap) :: extra
  ((items.filterMap fun i => i.2.max_concurrent).min?,
    ",".intercalate (items.map fun i => i.1 ++ "=" ++ show_cap i.2.max_concurrent))

def parallel_ok (cap : ConcurrencyCapability) : Bool :=
  cap.supports_parallel && match cap.max_concurrent with
    | none => true
    | some n => 1 < n

def Setup.effective_policy (s : Setup) : Option Policy := s.policy.or s.profile.execution_policy

def Setup.cross_modal_overlap (s : Setup) : Bool :=
  match s.effective_policy with
  | some p => p.mode = some (.str "concurrent") && p.cross_modal_overlap = .bool true
  | none => false

def Setup.has_asr_backend (s : Setup) : Bool := s.profile.asr_backend.truthy
def Setup.has_tts_backend (s : Setup) : Bool := s.profile.tts_backend.truthy
def Setup.has_declared_backends (s : Setup) : Bool := s.has_asr_backend || s.has_tts_backend

def Setup.asr_cap (s : Setup) : ConcurrencyCapability :=
  if s.has_asr_backend then s.asr_found else inactive_cap

def Setup.tts_cap (s : Setup) : ConcurrencyCapability :=
  if s.has_tts_backend then s.tts_found else inactive_cap

/-- The sum of the two caps, if both are finite. -/
def Setup.modal_sum (s : Setup) : Option ℕ :=
  match s.asr_cap.max_concurrent, s.tts_cap.max_concurrent with
  | some a, some t => some (a + t)
  | _, _ => none

/-- The aggregate of the backends and its description. -/
def Setup.ceiling (s : Setup) (diar_cap : Option ConcurrencyCapability) : Option ℕ × String :=
  if s.cross_modal_overlap && s.has_asr_backend && s.has_tts_backend then
    -- capacities of different modalities add up
    let source := "cross_modal:asr=" ++ show_cap s.asr_cap.max_concurrent ++ "+tts=" ++
      show_cap s.tts_cap.max_concurrent
    match diar_cap.bind (·.max_concurrent) with
    | some d => (some (s.modal_sum.elim d fun n => min n d), source ++ ",diar=" ++ toString d)
    | none => (s.modal_sum, source)
  else if s.has_declared_backends then
    aggregate_ceiling s.asr_cap s.tts_cap (diar_cap.toList.map ("diar", ·))
  else (some (target_default s.infer_target), "target_default=" ++ s.infer_target)

/-! ### The numbers derived from it -/

/-- A session ceiling that was asked for, under the ceiling of the backends. -/
def clamp_session (ceiling : Option ℕ × String) (label : String) (n : ℕ) : Option ℕ × List String :=
  match ceiling.1 with
  | some c =>
    if c < n then (some c, [label ++ "=" ++ toString n ++ " exceeds backend ceiling (" ++
      ceiling.2 ++ ") → clamping to " ++ toString c])
    else (some n, [])
  | none => (some n, [])

/-- The session ceiling, with the warning of a clamp. -/
def Setup.session (s : Setup) (ceiling : Option ℕ × String) (env_session profile_session : Option ℕ) :
    Option ℕ × List String :=
  match env_session, profile_session with
  | some n, _ => clamp_session ceiling "OVS_MAX_CONCURRENT_SESSIONS" n
  | none, some n => clamp_session ceiling "profile.max_concurrent_sessions" n
  | none, none => (ceiling.1.or (some (target_default s.infer_target)), [])

/-- `str(policy.get("mode", "concurrent"))`. -/
def Setup.requested (s : Setup) : String :=
  match s.effective_policy with
  | some p => (p.mode.getD (.str "concurrent")).toStr
  | none => "concurrent"

def Setup.coordinator_mode (s : Setup) : String :=
  if s.requested = "exclusive" then "exclusive"
  else if s.requested = "concurrent" && s.has_declared_backends &&
    !((parallel_ok s.asr_cap && parallel_ok s.tts_cap) ||
      (s.cross_modal_overlap && s.has_asr_backend && s.has_tts_backend)) then "serialized"
  else s.requested

/-- The variables of the backends, with the part of a name that selects each. -/
def worker_envs : List (String × String) :=
  [("kokoro", "OVS_TTS_STREAM_MAX_WORKERS_KOKORO"), ("matcha", "OVS_TTS_STREAM_MAX_WORKERS_MATCHA"),
    ("qwen3", "OVS_TTS_STREAM_MAX_WORKERS_QWEN3"), ("moss", "OVS_TTS_STREAM_MAX_WORKERS_MOSS")]

/-- The first variable that is set: its name and value. -/
def worker_env (name : String) (env_map : Env) : Option (String × String) :=
  ((worker_envs.filter fun e => PyText.contains name e.1).map Prod.snd ++
    ["OVS_TTS_STREAM_MAX_WORKERS"]).findSome? fun k => (env_map.nonempty k).map (k, ·)

def resolve_executor_max_workers (tts_cap : ConcurrencyCapability) (tts_backend_name : String)
    (env_map : Env) : ℕ × Option String :=
  match worker_env (PyText.lower tts_backend_name) env_map, tts_cap.max_concurrent with
  | some (env_used, env_str), some cap_max =>
    let n := (PyText.int env_str).getD 2
    if (cap_max : ℤ) < n then
      (max 1 cap_max, some ("TTS executor: " ++ env_used ++ "=" ++ toString n ++
        " exceeds backend ceiling " ++ toString cap_max ++ "; clamping"))
    else ((max 1 n).toNat, none)
  | some (_, env_str), none => ((max 1 ((PyText.int env_str).getD 2)).toNat, none)
  | none, some cap_max => (max 1 cap_max, none)
  | none, none => (2, none)

/-- `profile.get("tts_backend") in _TTS_REGISTRY`. -/
def Setup.tts_declared (s : Setup) : Bool :=
  match s.profile.tts_backend with
  | .str name => s.tts_registry name
  | _ => false

def Setup.executor (s : Setup) : ℕ × Option String :=
  resolve_executor_max_workers (if s.tts_declared then s.tts_cap else unknown_cap)
    s.tts_backend_name s.env_map

/-- How wide the descriptor lets the ASR gate be. -/
def gate_width (asr_cap : ConcurrencyCapability) (session_ceiling : Option ℕ) : ℕ :=
  if asr_cap.supports_parallel then
    ((asr_cap.max_concurrent.filter (· ≠ 0)).or (session_ceiling.filter (· ≠ 0))).getD 1
  else 1

/-- The width of the ASR gate, with the warning of a clamp. -/
def infer_concurrency (asr_cap : ConcurrencyCapability) (session_ceiling env_infer : Option ℕ) :
    ℕ × List String :=
  match env_infer with
  | some n =>
    if gate_width asr_cap session_ceiling < n then
      (gate_width asr_cap session_ceiling, ["OVS_ASR_INFER_CONCURRENCY=" ++ toString n ++
        " exceeds what the ASR backend declares (supports_parallel=" ++
        (Json.bool asr_cap.supports_parallel).toStr ++ ", max_concurrent=" ++
        asr_cap.max_concurrent.elim "None" toString ++ ") → clamping to " ++
        toString (gate_width asr_cap session_ceiling)])
    else (n, [])
  | none => (gate_width asr_cap session_ceiling, [])

/-- The queue of the gate: one utterance for each admitted session that does not run. -/
def queue_depth (session_ceiling : Option ℕ) (infer : ℕ) (env_depth : Option ℕ) : Option ℕ :=
  env_depth.or (session_ceiling.map (· - infer))

/-! ### resolve -/

/-- The settings of the operator, once they are parsed. -/
structure Overrides where
  env_session : Option ℕ
  profile_session : Option ℕ
  env_infer : Option ℕ
  env_depth : Option ℕ

/-- The four settings in the order in which they are read. -/
def Setup.overrides (s : Setup) : Except ValueError Overrides := do
  let env_session ← parse_positive_int "OVS_MAX_CONCURRENT_SESSIONS"
    (s.env_map.value "OVS_MAX_CONCURRENT_SESSIONS")
  let profile_session ← parse_positive_int "profile.max_concurrent_sessions"
    s.profile.max_concurrent_sessions
  let env_infer ← parse_positive_int "OVS_ASR_INFER_CONCURRENCY"
    (s.env_map.value "OVS_ASR_INFER_CONCURRENCY")
  let env_depth ← parse_non_negative_int "OVS_ASR_INFER_QUEUE_DEPTH"
    (s.env_map.value "OVS_ASR_INFER_QUEUE_DEPTH")
  return ⟨env_session, profile_session, env_infer, env_depth⟩

/-- The result for settings that are valid. -/
def Setup.resolved (s : Setup) (diar_cap : Option ConcurrencyCapability) (o : Overrides) :
    ResolvedCapability :=
  let ceiling := s.ceiling diar_cap
  let session := s.session ceiling o.env_session o.profile_session
  let infer := infer_concurrency s.asr_cap session.1 o.env_infer
  { session_ceiling := session.1
    executor_max_workers := s.executor.1
    coordinator_mode := s.coordinator_mode
    ceiling_source := ceiling.2
    asr_cap := s.asr_cap
    tts_cap := s.tts_cap
    clamp_warnings := session.2 ++ s.executor.2.toList ++ infer.2
    diar_cap := diar_cap
    asr_infer_concurrency := infer.1
    asr_queue_depth := queue_depth session.1 infer.1 o.env_depth }

/-- `resolve`, with the descriptor of diarization if that takes part. -/
def resolve (s : Setup) (diar_cap : Option ConcurrencyCapability) :
    Except ValueError ResolvedCapability :=
  s.overrides.map (s.resolved diar_cap)

end LocalVoice.CapabilityResolver
