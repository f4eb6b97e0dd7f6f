import LocalVoice.ProfileLoader.Expand
import Mathlib.Data.Finset.Basic
import Mathlib.Data.Finset.Image
import Mathlib.Logic.Function.Basic

/-! The part of `server/core/engine_resolver.py` that a profile application runs: `build_report`
    goes once over the engines of the profile that are in the kind's reach, exports the path of each
    one it resolves and never stops at a failure; `resolve_all` then raises if a required one
    failed. What it takes to resolve one engine (cache, bundle, network) is the disk's answer. -/

namespace LocalVoice.ProfileLoader
open LocalVoice.Lib

/-- What a call finds outside the process: the profile a reference leads to (`_profile_path`,
    `open`, `json.load`), the profile name of a preset (`none`: `UnsupportedPreset`), and whether
    `_resolve_one` returns for an engine. -/
structure Disk where
  open_profile : String → Option ProfileFile
  resolve_profile_name : String → Option String
  resolve_one : Engine → Bool

/-- `EngineStatus.state`; the two successful states `cache` and `hf_bundle` count alike. -/
inductive EngineState where | resolved | skipped_optional | failed
  deriving DecidableEq

structure EngineStatus where
  env_var : String
  state : EngineState
  deriving DecidableEq

/-- The entries `build_report` looks at: `_entry_kind(env_var) in (None, kind)`. -/
def report_entries (kind : Option Kind) (p : Profile) : List Engine :=
  if kind.isNone then p.required_engines
  else p.required_engines.filter fun e =>
    key_kind e.env_var == none || key_kind e.env_var == kind

/-- The loop of `build_report(profile, export_ok=True)`. -/
def build_report (disk : Disk) : List Engine → Env → Env × List EngineStatus
  | [], environ => (environ, [])
  | e :: rest, environ =>
    if disk.resolve_one e then
      let r := build_report disk rest (Function.update environ e.env_var (some e.exported_path))
      (r.1, ⟨e.env_var, .resolved⟩ :: r.2)
    else
      let r := build_report disk rest environ
      (r.1, ⟨e.env_var, if e.required then .failed else .skipped_optional⟩ :: r.2)

/-- `resolve_all`: the environment afterwards and the injected keys, `none` when it raises. -/
def resolve_all (disk : Disk) (kind : Option Kind) (p : Profile) (environ : Env) :
    Env × Option (List String) :=
  if p.required_engines = [] then (environ, some [])
  else
    let r := build_report disk (report_entries kind p) environ
    if r.2.any (fun s => s.state = .failed) then (r.1, none)
    else (r.1, some ((r.2.filter fun s => s.state = .resolved).map (·.env_var)))

/-- The variables an application of `p` exports, in the order it writes them. -/
def exports (disk : Disk) (kind : Option Kind) (p : Profile) : List (String × String) :=
  ((report_entries kind p).filter disk.resolve_one).map fun e => (e.env_var, e.exported_path)

/-- The value that is left in a variable by those writes. -/
def exported (disk : Disk) (kind : Option Kind) (p : Profile) : Env := fun k =>
  (exports disk kind p).reverse.lookup k

/-- Whether a required engine in reach fails, which makes `resolve_all` raise. -/
def engine_fails (disk : Disk) (kind : Option Kind) (p : Profile) : Bool :=
  (report_entries kind p).any fun e => !disk.resolve_one e && e.required

theorem build_report_environ (disk : Disk) (k : String) : ∀ (es : List Engine) (environ : Env),
    (build_report disk es environ).1 k =
      (((es.filter disk.resolve_one).map fun e => (e.env_var, e.exported_path)).reverse.lookup k).or
        (environ k)
  | [], environ => by simp [build_report]
  | e :: rest, environ => by
    by_cases h : disk.resolve_one e
    · simp only [build_report, h, if_true, build_report_environ disk k rest, List.filter_cons_of_pos,
        List.map_cons, List.reverse_cons, List.lookup_append, Option.or_assoc]
      congr 1
      by_cases hk : k = e.env_var
      · subst hk; simp
      · simp [Dict.lookup_cons_ite, hk]
    · simp [build_report, h, build_report_environ disk k rest]

theorem build_report_failed (disk : Disk) : ∀ (es : List Engine) (environ : Env),
    (build_report disk es environ).2.any (fun s => s.state = .failed) =
      es.any fun e => !disk.resolve_one e && e.required
  | [], _ => rfl
  | e :: rest, environ => by
    by_cases h : disk.resolve_one e
    · simp [build_report, h, build_report_failed disk rest]
    · by_cases hr : e.required <;> simp [build_report, h, hr, build_report_failed disk rest]

theorem build_report_resolved (disk : Disk) : ∀ (es : List Engine) (environ : Env),
    ((build_report disk es environ).2.filter fun s => s.state = .resolved).map (·.env_var) =
      (es.filter disk.resolve_one).map (·.env_var)
  | [], _ => rfl
  | e :: rest, environ => by
    by_cases h : disk.resolve_one e
    · simp [build_report, h, build_report_resolved disk rest]
    · by_cases hr : e.required <;> simp [build_report, h, hr, build_report_resolved disk rest]

/-- `resolve_all` writes every export, whether or not it raises in the end. -/
theorem resolve_all_environ (disk : Disk) (kind : Option Kind) (p : Profile) (environ : Env)
    (k : String) : (resolve_all disk kind p environ).1 k = (exported disk kind p k).or (environ k) := by
  unfold resolve_all
  split
  · rename_i h
    simp [exported, exports, report_entries, h]
  · dsimp only
    split <;> exact build_report_environ disk k _ _

/-- It raises exactly when a required engine in reach fails, and otherwise returns the exported
    keys. -/
theorem resolve_all_injected (disk : Disk) (kind : Option Kind) (p : Profile) (environ : Env) :
    (resolve_all disk kind p environ).2 =
      if engine_fails disk kind p then none else some ((exports disk kind p).map Prod.fst) := by
  unfold resolve_all
  split
  · rename_i h
    simp [engine_fails, exports, report_entries, h]
  · simp only [build_report_failed, build_report_resolved, engine_fails, exports, List.map_map,
      Function.comp_def]
    split <;> rfl

/-- An exported key is in reach: shared, or of the kind itself. -/
theorem exported_kind {disk : Disk} {kd : Kind} {p : Profile} {k v : String}
    (h : exported disk (some kd) p k = some v) : key_kind k = none ∨ key_kind k = some kd := by
  have hk : k ∈ (exports disk (some kd) p).map Prod.fst := by
    have := (Dict.lookup_isSome k (exports disk (some kd) p).reverse).1 (by
      rw [exported] at h; simp [h])
    simpa using this
  simp only [exports, report_entries, Option.isNone_some, Bool.false_eq_true, if_false,
    List.map_map, List.mem_map, List.mem_filter, Function.comp_apply] at hk
  obtain ⟨e, ⟨⟨-, he⟩, -⟩, rfl⟩ := hk
  simpa using he

theorem exported_isSome {disk : Disk} {kind : Option Kind} {p : Profile} {k : String} :
    (exported disk kind p k).isSome ↔ k ∈ (exports disk kind p).map Prod.fst := by
  rw [exported, Dict.lookup_isSome]
  simp

/-! `apply_profile` of `server/core/profile_loader.py` as a state transformer. The state is
    `os.environ` with the three module globals; the operator snapshot is fixed at import. An
    application hands ownership back, clears what is stale, writes the new values one by one (it may
    raise in the middle of them), updates the bookkeeping and injects the engine paths:

        relinquish ──▶ clear_stale ──▶ write_values ──▶ update_keys ──▶ inject
                                            │ a CRITICAL key differs
                                            └──▶ RuntimeError, the state as it is by then

    `apply_environ` says what the whole of it leaves in one variable. -/

/-- `os.environ`, `_APPLIED_KEYS`, `_OWNED_OVERRIDES` and `_CURRENT_PROFILE`, for a process whose
    operator snapshot is `S`. Only keys with a remembered operator value are ever overridden. -/
@[ext] structure LoaderState (S : Env) where
  environ : Env
  applied : Finset String
  owned_overrides : Finset String
  current : Profile
  owned_sub : ∀ k ∈ owned_overrides, (S k).isSome

/-- The module state right after import. -/
def LoaderState.fresh (environ : Env) : LoaderState (snapshot_operator_env environ) :=
  ⟨environ, ∅, ∅, .none, by simp⟩

/-- The arguments of `apply_profile`. -/
structure Call where
  profile_ref : Option String
  overrides : List (String × String)
  resolve_engines : Bool
  kind : Option Kind

inductive ApplyError where
  | unsupported_preset (preset : String)
  | unreadable (ref : String)
  | critical (profile key value : String) (existing : Option String)

/-- The text of the `RuntimeError` for a CRITICAL key. -/
def ApplyError.message : ApplyError → String
  | .unsupported_preset p => p
  | .unreadable r => r
  | .critical profile k v existing =>
    "Profile " ++ profile ++ " requires " ++ k ++ "=" ++ v ++ ", but environment has " ++ k ++ "="
      ++ existing.getD "None" ++ ". Remove " ++ k ++ " from your environment (compose/.env/shell) "
      ++ "or change OVS_PROFILE to one that matches."

inductive Outcome where
  | returned (profile : Option ProfileFile)
  | raised (e : ApplyError)

def Outcome.raises : Outcome → Bool
  | .returned _ => false
  | .raised _ => true

/-- `_env`: the first of the variables that is set to a non-empty value. -/
def env_first (environ : Env) (names : List String) : Option String :=
  names.findSome? fun n => (environ n).filter (· ≠ "")

/-- `_select_profile_ref`: the reference the environment asks for. -/
def select_profile_ref (disk : Disk) (environ : Env) : Except ApplyError (Option String) :=
  match env_first environ ["OVS_PROFILE_JSON", "OVS_PROFILE", "OVS_PROFILE_DEFAULT"] with
  | some r => .ok (some r)
  | none =>
    match (environ "LANGUAGE_MODE").map PyText.strip with
    | some "zh_en" => .ok (some "jetson-zh-en")
    | some "multilanguage" => .ok (some "jetson-multilang-highperf")
    | _ =>
      match env_first environ ["OVS_PRESET"] with
      | none => .ok none
      | some preset =>
        match disk.resolve_profile_name preset with
        | some r => .ok (some r)
        | none => .error (.unsupported_preset preset)

section
variable {S : Env}

/-- `eff_operator`: the operator keys the profile does not own. -/
def eff_operator (S : Env) (owned : List String) (k : String) : Bool :=
  (S k).isSome && !owned.contains k

/-- `merged`: the profile's expanded values, the derived ones over them, the overrides over those;
    for a kind-scoped call only the keys in scope. -/
def merged_env (environ : Env) (f : ProfileFile) (c : Call) : Dict String String :=
  ((((f.profile.env.mapValues fun v =>
      expand_with_profile_env environ f.profile.env v.toStr).update (derived f)).update
    c.overrides)).filterKeys (in_scope c.kind)

/-- `relinquished`: overridden operator keys that this profile does not own any more. -/
def relinquished (owned : List String) (kind : Option Kind) (s : LoaderState S) : Finset String :=
  s.owned_overrides.filter fun k => !owned.contains k && in_scope kind k

/-- Step 0: hand the relinquished keys back to the operator. -/
def relinquish (owned : List String) (kind : Option Kind) (s : LoaderState S) : LoaderState S :=
  { s with
    environ := fun k => if k ∈ relinquished owned kind s then S k else s.environ k
    owned_overrides := s.owned_overrides \ relinquished owned kind s
    owned_sub := fun k hk => s.owned_sub k (Finset.mem_sdiff.1 hk).1 }

/-- The stale keys that step 1 removes from the environment. -/
def clears (owned : List String) (kind : Option Kind) (new_keys : List String)
    (s : LoaderState S) (k : String) : Bool :=
  k ∈ s.applied && !new_keys.contains k && !eff_operator S owned k && in_scope kind k

/-- Step 1: clear the keys of the previous profile that this one does not set. -/
def clear_stale (owned : List String) (kind : Option Kind) (new_keys : List String)
    (s : LoaderState S) : LoaderState S :=
  { s with environ := fun k => if clears owned kind new_keys s k then none else s.environ k }

/-- One assignment of step 2, with the note that an operator key is now overridden. -/
def write_one (owned : List String) (k v : String) (s : LoaderState S) : LoaderState S :=
  { s with
    environ := Function.update s.environ k (some v)
    owned_overrides :=
      if (S k).isSome && owned.contains k then insert k s.owned_overrides else s.owned_overrides
    owned_sub := by
      intro j hj
      split at hj
      · rename_i h
        rcases Finset.mem_insert.1 hj with rfl | hj
        · exact (Bool.and_eq_true_iff.1 h).1
        · exact s.owned_sub j hj
      · exact s.owned_sub j hj }

/-- A value that the operator's own one stands against, on a key that must not differ. -/
def conflicts (S : Env) (owned : List String) (environ : Env) (k v : String) : Bool :=
  eff_operator S owned k && environ k ≠ some v && critical_keys.contains k

/-- Step 2: the write loop; it stops at the first conflict. -/
def write_values (owned : List String) : List (String × String) → LoaderState S →
    LoaderState S × Option (String × String)
  | [], s => (s, none)
  | (k, v) :: rest, s =>
    if eff_operator S owned k then
      if conflicts S owned s.environ k v then (s, some (k, v)) else write_values owned rest s
    else write_values owned rest (write_one owned k v s)

/-- Step 3: `_APPLIED_KEYS` after a call that set `new_keys`. -/
def updated_keys (S : Env) (owned : List String) (kind : Option Kind) (new_keys : List String)
    (applied : Finset String) : Finset String :=
  (applied.filter fun k => !in_scope kind k) ∪
    (new_keys.filter fun k => !eff_operator S owned k).toFinset

/-- The engine injection; a failed resolution is logged and its writes stay. -/
def inject (disk : Disk) (kind : Option Kind) (p : Profile) (s : LoaderState S) : LoaderState S :=
  let r := resolve_all disk kind p s.environ
  { s with
    environ := r.1
    applied := s.applied ∪ ((r.2.getD []).filter fun k => (S k).isNone).toFinset }

/-- `apply_profile` from the loaded profile on. -/
def reconcile (disk : Disk) (f : ProfileFile) (c : Call) (s : LoaderState S) :
    LoaderState S × Outcome :=
  let owned := f.profile.profile_owned_env
  let merged := merged_env s.environ f c
  let s1 := clear_stale owned c.kind merged.keys (relinquish owned c.kind s)
  match write_values owned merged.items s1 with
  | (s2, some (k, v)) =>
    (s2, .raised (.critical ((f.profile.name.map Json.toStr).getD f.stem) k v (s2.environ k)))
  | (s2, none) =>
    let s3 := { s2 with
      applied := updated_keys S owned c.kind merged.keys s2.applied
      current := f.profile }
    (if c.resolve_engines then inject disk c.kind f.profile s3 else s3, .returned (some f))

/-- The reference a call works with: `profile_ref if profile_ref else _select_profile_ref()`. -/
def call_ref (disk : Disk) (c : Call) (environ : Env) : Except ApplyError (Option String) :=
  match c.profile_ref.filter (· ≠ "") with
  | some r => .ok (some r)
  | none => select_profile_ref disk environ

/-- `apply_profile`. -/
def apply_profile (disk : Disk) (c : Call) (s : LoaderState S) : LoaderState S × Outcome :=
  match call_ref disk c s.environ with
  | .error e => (s, .raised e)
  | .ok none => (s, .returned none)
  | .ok (some ref) =>
    match disk.open_profile ref with
    | none => (s, .raised (.unreadable ref))
    | some f => reconcile disk f c s

end

end LocalVoice.ProfileLoader
