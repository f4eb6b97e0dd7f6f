import LocalVoice.ActionsManager.Documents

/-! `ActionsManager.save`, with the checks on its arguments, the etag with its cache, and every step of
    the disk that can fail. The file changes between calls as others like; within a call only the call
    itself changes it. -/

namespace LocalVoice.ActionsManager
open LocalVoice.Lib

def MAX_FRAMES : ℕ := 50
def MAX_YAML_BYTES : ℕ := 100 * 1024

/-- What `save` raises; `crash` is an `OverflowError` of a number or a text that is no UTF-8. -/
inductive Error where
  | bad_name
  | empty_frames
  | too_many_frames
  | bad_frame (idx : ℕ)
  | missing_joint (idx : ℕ) (joint : String)
  | bad_delay (idx : ℕ)
  | etag_mismatch
  | yaml_too_large
  | crash
  | os_error
  deriving DecidableEq

structure File (Bytes : Type) where
  bytes : Bytes
  mtime_ns : ℕ

structure EtagCache where
  etag : String
  size : ℕ
  mtime_ns : ℕ

/-- A manager and its file. -/
structure Store (F Bytes : Type) where
  file : Option (File Bytes)
  action_map : ActionMap F
  etag_cache : Option EtagCache

/-- The arguments of `save`. -/
structure Args (F : Type) where
  name : String
  frames : Yaml F
  if_match : Option String
  description : Option String

/-- What the disk does to a call: `os.stat`, the reading before, any step of `_atomic_write`, or the
    reading after it raises an `OSError`; and the time of the new file. -/
structure Faults where
  stat : Bool
  read : Bool
  write : Bool
  reread : Bool
  mtime_ns : ℕ

structure Reply where
  name : Name
  frames_count : ℕ
  etag : String
  replaced : Bool

section
variable {F Bytes : Type} (env : Env F Bytes)

/-! ### Checks -/

/-- A value of a frame as a float, with what is raised when it is none. -/
def numeric (idx : ℕ) (v : Yaml F) : Except Error F :=
  match float env v with
  | .ok f => .ok f
  | .error .overflow => .error .crash
  | .error _ => .error (.bad_frame idx)

/-- The delay of a frame, within its bounds. -/
def validate_delay (idx : ℕ) (v : Option (Yaml F)) : Except Error F := do
  let delay ← v.elim (.ok env.default_delay) (numeric env idx)
  if env.delay_ok delay then .ok delay else .error (.bad_delay idx)

/-- A frame of `_validate_frames`. -/
def validate_frame (required : List String) (idx : ℕ) (frame : Yaml F) : Except Error (Frame F) :=
  match frame.as_dict with
  | none => .error (.bad_frame idx)
  | some frame => match (frame.get? (.str "joints")).bind Yaml.as_dict with
    | none => .error (.bad_frame idx)
    | some joints => match required.find? fun req => (joints.get? (.str req)).isNone with
      | some req => .error (.missing_joint idx req)
      | none => do
        let values ← required.mapM fun req =>
          (numeric env idx ((joints.get? (.str req)).getD .null)).map fun f => (req, f)
        let delay ← validate_delay env idx (frame.get? (.str "delay"))
        return ⟨Dict.empty.update values, delay⟩

/-- `_validate_frames`. -/
def validate_frames (required : List String) : Yaml F → Except Error (List (Frame F))
  | .list frames =>
    if frames = [] then .error .empty_frames
    else if frames.length > MAX_FRAMES then .error .too_many_frames
    else frames.zipIdx.mapM fun p => validate_frame env required p.2 p.1
  | _ => .error .empty_frames

/-- `_validate_name`. -/
def validate_name (name : String) : Except Error Name :=
  if h : name_ok name = true then .ok ⟨name, h⟩ else .error .bad_name

/-! ### Etags -/

namespace Store
variable (s : Store F Bytes)

/-- `_refresh_etag_locked`. -/
def refresh_etag (fails : Bool) : Store F Bytes × Except Error String :=
  if fails then (s, .error .os_error)
  else match s.file with
  | none => ({ s with etag_cache := none }, .ok "sha256:empty")
  | some file =>
    ({ s with etag_cache := some ⟨env.etag file.bytes, env.size file.bytes, file.mtime_ns⟩ },
      .ok (env.etag file.bytes))

/-- `_compute_etag_locked`. -/
def compute_etag (faults : Faults) : Store F Bytes × Except Error String :=
  if faults.stat then (s, .error .os_error)
  else match s.file with
  | none => ({ s with etag_cache := none }, .ok "sha256:empty")
  | some file => match s.etag_cache with
    | some cache =>
      if cache.size = env.size file.bytes ∧ cache.mtime_ns = file.mtime_ns then (s, .ok cache.etag)
      else s.refresh_etag env faults.read
    | none => s.refresh_etag env faults.read

end Store

/-! ### Saving -/

/-- The entry that is saved over a prior one. -/
def new_entry (prior : Option (Entry F)) (description : Option String) (frames : List (Frame F)) :
    Entry F where
  description := match description with
    | some text => .of text
    | none => (prior.map Entry.description).getD .empty
  frames := frames
  response_mode := (prior.map Entry.response_mode).getD .empty
  completion_text := (prior.map Entry.completion_text).getD .empty

/-- `new_map`. -/
def Store.new_map (s : Store F Bytes) (name : Name) (frames : List (Frame F))
    (description : Option String) : ActionMap F :=
  s.action_map.set name (new_entry (s.action_map.get? name) description frames)

/-- The part of `save` that has the lock and the etag. -/
def Store.replace (s : Store F Bytes) (name : Name) (frames : List (Frame F)) (description : Option String)
    (faults : Faults) : Store F Bytes × Except Error Reply :=
  match env.dump (payload (s.new_map name frames description)) with
  | none => (s, .error .crash)
  | some serialized =>
    if env.size serialized > MAX_YAML_BYTES then (s, .error .yaml_too_large)
    else if faults.write then (s, .error .os_error)
    else
      match ({ s with
          file := some ⟨serialized, faults.mtime_ns⟩
          action_map := s.new_map name frames description } : Store F Bytes).refresh_etag env
            faults.reread with
      | (s', .ok etag) => (s', .ok ⟨name, frames.length, etag, (s.action_map.get? name).isSome⟩)
      | (s', .error e) => (s', .error e)

/-- `save`, with the joints that the actuator asks for. -/
def Store.save (s : Store F Bytes) (required : List String) (args : Args F) (faults : Faults) :
    Store F Bytes × Except Error Reply :=
  match validate_name args.name, validate_frames env required args.frames with
  | .error e, _ => (s, .error e)
  | _, .error e => (s, .error e)
  | .ok name, .ok frames => match s.compute_etag env faults with
    | (s', .error e) => (s', .error e)
    | (s', .ok current_etag) =>
      if args.if_match.any (· ≠ current_etag) then (s', .error .etag_mismatch)
      else s'.replace env name frames args.description faults

/-- The save comes to replace the file: what it saves, and the bytes it writes. -/
def Store.reaches (s : Store F Bytes) (required : List String) (args : Args F) (faults : Faults) :
    Option (Name × List (Frame F) × Bytes) :=
  match validate_name args.name, validate_frames env required args.frames,
    (s.compute_etag env faults).2 with
  | .ok name, .ok frames, .ok current_etag =>
    if args.if_match.any (· ≠ current_etag) then none
    else match env.dump (payload (s.new_map name frames args.description)) with
      | some serialized =>
        if env.size serialized > MAX_YAML_BYTES || faults.write then none
        else some (name, frames, serialized)
      | none => none
  | _, _, _ => none

end

section
variable {F Bytes : Type} (env : Env F Bytes) (s : Store F Bytes) {required : List String} {args : Args F}
  (faults : Faults)

/-- The etag is looked at without a change to the file or the actions. -/
theorem refresh_etag_frame (fails : Bool) : (s.refresh_etag env fails).1.file = s.file ∧
    (s.refresh_etag env fails).1.action_map = s.action_map := by
  simp only [Store.refresh_etag]
  repeat' split
  all_goals exact ⟨rfl, rfl⟩

theorem compute_etag_frame : (s.compute_etag env faults).1.file = s.file ∧
    (s.compute_etag env faults).1.action_map = s.action_map := by
  simp only [Store.compute_etag]
  repeat' split
  all_goals first | exact ⟨rfl, rfl⟩ | exact refresh_etag_frame env s _

/-- A save that raises before it replaces the file. -/
structure Refused (required : List String) (args : Args F) : Prop where
  reaches : s.reaches env required args faults = none
  file : (s.save env required args faults).1.file = s.file
  action_map : (s.save env required args faults).1.action_map = s.action_map
  raises : ∃ e, (s.save env required args faults).2 = .error e

/-- A save that replaces the file with `p.2.2`; it raises if the new one cannot be read. -/
structure Replaced (required : List String) (args : Args F) (p : Name × List (Frame F) × Bytes) :
    Prop where
  reaches : s.reaches env required args faults = some p
  name : validate_name args.name = .ok p.1
  frames : validate_frames env required args.frames = .ok p.2.1
  dump : env.dump (payload (s.new_map p.1 p.2.1 args.description)) = some p.2.2
  file : (s.save env required args faults).1.file = some ⟨p.2.2, faults.mtime_ns⟩
  action_map : (s.save env required args faults).1.action_map = s.new_map p.1 p.2.1 args.description
  ok_iff : (∃ r, (s.save env required args faults).2 = .ok r) ↔ faults.reread = false

theorem save_eq {name : Name} {frames : List (Frame F)} (hname : validate_name args.name = .ok name)
    (hframes : validate_frames env required args.frames = .ok frames) :
    s.save env required args faults = match s.compute_etag env faults with
    | (s', .error e) => (s', .error e)
    | (s', .ok current_etag) =>
      if args.if_match.any (· ≠ current_etag) then (s', .error .etag_mismatch)
      else s'.replace env name frames args.description faults := by
  simp only [Store.save, hname, hframes]

/-- The file is replaced, or nothing is. -/
theorem replace_cases (name : Name) (frames : List (Frame F)) (description : Option String) :
    (∃ e, s.replace env name frames description faults = (s, .error e)) ∧
      (∀ serialized, env.dump (payload (s.new_map name frames description)) = some serialized →
        (env.size serialized > MAX_YAML_BYTES || faults.write) = true) ∨
    ∃ serialized, env.dump (payload (s.new_map name frames description)) = some serialized ∧
      (env.size serialized > MAX_YAML_BYTES || faults.write) = false ∧
      (s.replace env name frames description faults).1.file = some ⟨serialized, faults.mtime_ns⟩ ∧
      (s.replace env name frames description faults).1.action_map = s.new_map name frames description ∧
      ((∃ r, (s.replace env name frames description faults).2 = .ok r) ↔ faults.reread = false) := by
  simp only [Store.replace]
  cases hdump : env.dump (payload (s.new_map name frames description)) with
  | none => exact Or.inl ⟨⟨_, rfl⟩, by simp⟩
  | some serialized =>
    by_cases hsize : env.size serialized > MAX_YAML_BYTES
    · refine Or.inl ⟨⟨.yaml_too_large, by simp [hsize]⟩, ?_⟩
      rintro _ ⟨⟩
      simp [hsize]
    · cases hwrite : faults.write with
      | true => exact Or.inl ⟨⟨.os_error, by simp [hsize]⟩, by simp⟩
      | false =>
        refine Or.inr ⟨serialized, rfl, by simp [hsize], ?_⟩
        simp only [if_neg hsize, Bool.false_eq_true, if_false, Store.refresh_etag]
        cases faults.reread <;> simp

/-- Every save is one of these. -/
theorem save_cases (required : List String) (args : Args F) :
    Refused env s faults required args ∨ ∃ p, Replaced env s faults required args p := by
  cases hname : validate_name args.name with
  | error e => exact Or.inl (by constructor <;> simp [Store.reaches, Store.save, hname])
  | ok name =>
    cases hframes : validate_frames env required args.frames with
    | error e => exact Or.inl (by constructor <;> simp [Store.reaches, Store.save, hname, hframes])
    | ok frames =>
      obtain ⟨hfile, hmap⟩ := compute_etag_frame env s faults
      have hsave := save_eq env s faults hname hframes
      cases hetag : s.compute_etag env faults with
      | mk s' etag =>
        rw [hetag] at hfile hmap hsave
        simp only at hfile hmap
        have hnew : ∀ description, s'.new_map name frames description = s.new_map name frames description := by
          intro description
          simp only [Store.new_map, hmap]
        cases etag with
        | error e =>
          refine Or.inl ⟨by simp [Store.reaches, hname, hframes, hetag], ?_, ?_, ?_⟩ <;> rw [hsave]
          · exact hfile
          · exact hmap
          · exact ⟨e, rfl⟩
        | ok current_etag =>
          simp only at hsave
          cases hmatch : args.if_match.any (· ≠ current_etag) with
          | true =>
            rw [hmatch, if_pos rfl] at hsave
            refine Or.inl ⟨by simp only [Store.reaches, hname, hframes, hetag, hmatch, if_true], ?_, ?_, ?_⟩ <;>
              rw [hsave]
            · exact hfile
            · exact hmap
            · exact ⟨_, rfl⟩
          | false =>
            rw [hmatch, if_neg Bool.false_ne_true] at hsave
            rcases replace_cases env s' faults name frames args.description with
              ⟨⟨e, hreplace⟩, hwhy⟩ | ⟨serialized, hdump, hpass, hfile', hmap', hok⟩
            · rw [hreplace] at hsave
              refine Or.inl ⟨?_, ?_, ?_, ?_⟩
              · simp only [Store.reaches, hname, hframes, hetag, hmatch, Bool.false_eq_true, if_false]
                cases hdump : env.dump (payload (s.new_map name frames args.description)) with
                | none => rfl
                | some serialized => exact if_pos (hwhy serialized (by rw [hnew]; exact hdump))
              · rw [hsave]
                exact hfile
              · rw [hsave]
                exact hmap
              · rw [hsave]
                exact ⟨e, rfl⟩
            · rw [hnew] at hdump hmap'
              refine Or.inr ⟨(name, frames, serialized), ?_, hname, hframes, hdump, ?_, ?_, ?_⟩
              · simp only [Store.reaches, hname, hframes, hetag, hmatch, hdump, Bool.false_eq_true, if_false]
                rw [hpass]
                rfl
              · rw [hsave]
                exact hfile'
              · rw [hsave]
                exact hmap'
              · rw [hsave]
                exact hok

end

end LocalVoice.ActionsManager
