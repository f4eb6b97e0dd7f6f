import LocalVoice.Lib.Crash
import LocalVoice.Lib.PyInt
import LocalVoice.Lib.Run

/-! The two TensorRT engines that `server/core/model_downloader.py` builds on the device. A build
    replaces the plan and then writes a sidecar with what the plan was built from; a later start
    compares the two. What the builds put out is remembered beside the disk.

        <plan>.part ──▶ <plan> ──▶ <plan>.buildinfo.json opened ──▶ written -/

namespace LocalVoice.ModelDownloader
open LocalVoice.Lib

/-! ### Specifications -/

/-- `_env_flag`, of the raw variable. -/
def env_flag (raw : Option String) (default : Bool) : Bool :=
  match raw with
  | none => default
  | some raw =>
    if PyText.strip raw = "" then default
    else PyText.lower (PyText.strip raw) ∈ ["1", "true", "yes", "on"]

/-- `_env_int`, of the raw variable. -/
def env_int (raw : Option String) (default : ℤ) : ℤ := (raw.bind PyText.int).getD default

structure SenseVoiceSpec where
  onnx : String
  onnx_sha256 : String
  fp16 : Bool
  workspace_gib : ℤ
  opt_level : ℤ
  argmax : Bool
  deriving DecidableEq

structure WhisperSpec where
  onnx_sha256 : String
  precision : String
  shape : String
  workspace_gib : ℤ
  deriving DecidableEq

/-- What a build of the SenseVoice engine depends on: the name and hash of its ONNX, and the raw
    variables. -/
structure SenseVoiceInputs where
  onnx : String
  onnx_sha256 : String
  fp16 : Option String
  workspace_gib : Option String
  opt_level : Option String
  argmax : Option String

structure WhisperInputs where
  onnx_sha256 : String
  workspace_gib : Option String

def sensevoice_build_spec (i : SenseVoiceInputs) : SenseVoiceSpec where
  onnx := i.onnx
  onnx_sha256 := i.onnx_sha256
  fp16 := env_flag i.fp16 true
  workspace_gib := env_int i.workspace_gib 3
  opt_level := env_int i.opt_level (-1)
  argmax := env_flag i.argmax false

def sensevoice_build_spec_defaults (spec : SenseVoiceSpec) : SenseVoiceSpec :=
  { spec with fp16 := true, workspace_gib := 3, opt_level := -1, argmax := false }

def whisper_trt_build_spec (i : WhisperInputs) : WhisperSpec where
  onnx_sha256 := String.ofList (i.onnx_sha256.toList.take 16)
  precision := "bf16"
  shape := "1x80x3000"
  workspace_gib := env_int i.workspace_gib 3

/-! ### The disk -/

/-- A plan, and whether an operator placed it there. -/
structure Plan where
  bytes : List UInt8
  by_hand : Bool

/-- The sidecar of a plan: not there, opened and not yet written, or what a build wrote into it. The
    SenseVoice engine writes no size and hash of the plan. -/
inductive BuildInfo (σ : Type) where
  | missing
  | unreadable
  | written (trt : String) (spec : σ) (plan : Option (ℕ × String))

/-- The disk of one engine, and the plans its builds put out, each with what it was built from. -/
structure Cache (σ : Type) where
  plan : Option Plan
  info : BuildInfo σ
  builds : List (σ × String × List UInt8)

def Cache.empty {σ : Type} : Cache σ := ⟨none, .missing, []⟩

/-- One start: what the specification is made of, the version of TensorRT if it can be imported, and
    the plan that a build puts out, if it does not raise. -/
structure Start (ι : Type) where
  inputs : ι
  trt : Option String
  built : Option (List UInt8)

/-- A start returns without building, with a new engine, or raises. -/
inductive Outcome where
  | served
  | built
  | raised
  deriving DecidableEq

section
variable {σ : Type}

/-- `os.replace(tmp, plan_path)` of a build. -/
def replace_plan (spec : σ) (trt : String) (bytes : List UInt8) (c : Cache σ) : Cache σ :=
  { c with plan := some ⟨bytes, false⟩, builds := (spec, trt, bytes) :: c.builds }

/-- `open(info_path, "w")`. -/
def open_info (c : Cache σ) : Cache σ := { c with info := .unreadable }

def write_info (i : BuildInfo σ) (c : Cache σ) : Cache σ := { c with info := i }

/-- The end of a build: the plan in its place, then the sidecar. -/
def install (spec : σ) (trt : String) (bytes : List UInt8) (plan : Option (ℕ × String)) :
    Prog (Cache σ) Outcome := do
  Prog.step (replace_plan spec trt bytes)
  Prog.step open_info
  Prog.step (write_info (.written trt spec plan))
  pure .built

/-- A plan that is there and not empty. -/
def Cache.plan_bytes (c : Cache σ) : Option (List UInt8) :=
  (c.plan.map Plan.bytes).filter (· ≠ [])

end

/-! ### SenseVoice -/

/-- What `_sensevoice_engine_staleness` finds. -/
inductive Stale where
  | no_engine
  | predates_build_info
  | tensorrt_changed
  | spec_changed

def sensevoice_engine_staleness (c : Cache SenseVoiceSpec) (spec : SenseVoiceSpec)
    (trt : Option String) : Option Stale :=
  match c.plan_bytes with
  | none => some .no_engine
  | some _ => match c.info with
    | .missing | .unreadable =>
      if spec = sensevoice_build_spec_defaults spec then none else some .predates_build_info
    | .written built_trt built_spec _ =>
      if trt.any (built_trt ≠ ·) then some .tensorrt_changed
      else if built_spec ≠ spec then some .spec_changed
      else none

/-- `_build_sensevoice_trt_engine`; importing TensorRT may raise, and so may the build. -/
def build_sensevoice_trt_engine (r : Start SenseVoiceInputs) : Prog (Cache SenseVoiceSpec) Outcome :=
  match r.trt, r.built with
  | some trt, some bytes => install (sensevoice_build_spec r.inputs) trt bytes none
  | _, _ => pure .raised

/-- The end of `_ensure_sensevoice_trt_artifacts`, once the assets are there. -/
def ensure_sensevoice_trt_artifacts (r : Start SenseVoiceInputs) :
    Prog (Cache SenseVoiceSpec) Outcome := Prog.get >>= fun c =>
  match sensevoice_engine_staleness c (sensevoice_build_spec r.inputs) r.trt with
  | none => pure .served
  | some _ => build_sensevoice_trt_engine r

/-! ### Whisper -/

section
variable (sha256 : List UInt8 → String) (is_the_encoder : String → List UInt8 → Bool)

/-- The check of `_build_whisper_trt_engine` in front of the build: a plan without a sidecar counts as
    supplied by hand, and is used if this TensorRT loads it as the encoder. -/
def whisper_check (c : Cache WhisperSpec) (spec : WhisperSpec) (trt : String) : Option Outcome :=
  match c.plan_bytes with
  | none => none
  | some bytes => match c.info with
    | .missing => some (if is_the_encoder trt bytes then .served else .raised)
    | .unreadable | .written _ _ none => none
    | .written built_trt built_spec (some (plan_bytes, plan_sha256)) =>
      if built_spec = spec ∧ built_trt = trt ∧ plan_bytes = bytes.length ∧
        plan_sha256 = sha256 bytes then some .served
      else none

/-- `_build_whisper_trt_engine`. -/
def build_whisper_trt_engine (r : Start WhisperInputs) : Prog (Cache WhisperSpec) Outcome :=
  match r.trt with
  | none => pure .raised
  | some trt => Prog.get >>= fun c =>
    match whisper_check sha256 is_the_encoder c (whisper_trt_build_spec r.inputs) trt with
    | some outcome => pure outcome
    | none => match r.built with
      | none => pure .raised
      | some bytes =>
        install (whisper_trt_build_spec r.inputs) trt bytes (some (bytes.length, sha256 bytes))

end

/-! ### Starts, one after the other -/

structure Disk where
  sensevoice : Cache SenseVoiceSpec
  whisper : Cache WhisperSpec

/-- A start, stopped after so many durable steps or at its end; or an operator places a plan, and
    takes the sidecar away or leaves it. -/
inductive Event where
  | sensevoice (r : Start SenseVoiceInputs) (stop : ℕ)
  | whisper (r : Start WhisperInputs) (stop : ℕ)
  | supply_sensevoice (bytes : List UInt8) (keep_info : Bool)
  | supply_whisper (bytes : List UInt8) (keep_info : Bool)

def supply {σ : Type} (bytes : List UInt8) (keep_info : Bool) (c : Cache σ) : Cache σ :=
  { c with plan := some ⟨bytes, true⟩, info := if keep_info then c.info else .missing }

section
variable (sha256 : List UInt8 → String) (is_the_encoder : String → List UInt8 → Bool)

def step (s : Disk) : Event → Disk
  | .sensevoice r stop =>
    { s with sensevoice := (ensure_sensevoice_trt_artifacts r).after stop s.sensevoice }
  | .whisper r stop =>
    { s with whisper := (build_whisper_trt_engine sha256 is_the_encoder r).after stop s.whisper }
  | .supply_sensevoice bytes keep_info =>
    { s with sensevoice := supply bytes keep_info s.sensevoice }
  | .supply_whisper bytes keep_info => { s with whisper := supply bytes keep_info s.whisper }

end

/-! A start that returns without building serves the plan on disk. Over starts that are stopped
    between the plan and its sidecar, this can be a plan of another specification: the sidecar is
    missing and trusted, or it is that of the plan before. Whisper compares the hash of the plan too,
    so there only a plan without any sidecar is open to this. -/

section
variable {σ : Type}

/-- The plan on disk is what a build with this specification and TensorRT put out, unless an operator
    placed it. -/
def Current (c : Cache σ) (spec : σ) (trt : String) : Prop :=
  ∃ p, c.plan = some p ∧ (p.by_hand = true ∨ (spec, trt, p.bytes) ∈ c.builds)

theorem plan_of_bytes {c : Cache σ} {bytes : List UInt8} (h : c.plan_bytes = some bytes) :
    ∃ p, c.plan = some p ∧ p.bytes = bytes := by
  obtain ⟨hmap, -⟩ := Option.filter_eq_some_iff.1 h
  exact Option.map_eq_some_iff.1 hmap

theorem install_after (spec : σ) (trt : String) (bytes : List UInt8) (plan : Option (ℕ × String))
    (n : ℕ) (c : Cache σ) : (install spec trt bytes plan).after n c = match n with
      | 0 => c
      | 1 => replace_plan spec trt bytes c
      | 2 => open_info (replace_plan spec trt bytes c)
      | _ => write_info (.written trt spec plan) (replace_plan spec trt bytes c) := by
  rcases n with _ | _ | _ | n
  · rfl
  · rfl
  · rfl
  · cases n <;> rfl

end

/-! ### SenseVoice -/

/-- The sidecar of a plan that was built is that of its build. -/
def SenseVoiceInv (c : Cache SenseVoiceSpec) : Prop :=
  ∀ p, c.plan = some p → p.by_hand = false →
    ∃ trt spec plan, c.info = .written trt spec plan ∧ (spec, trt, p.bytes) ∈ c.builds

/-- A start that comes to build is not stopped before its sidecar is written, unless the one that is
    there says the same. -/
def SenseVoiceSettled (c : Cache SenseVoiceSpec) (r : Start SenseVoiceInputs) (stop : ℕ) : Prop :=
  ∀ trt bytes, r.trt = some trt → r.built = some bytes →
    sensevoice_engine_staleness c (sensevoice_build_spec r.inputs) r.trt ≠ none →
    stop ≠ 2 ∧ (stop = 1 → ∃ plan, c.info = .written trt (sensevoice_build_spec r.inputs) plan)

theorem sensevoice_inv_start {c : Cache SenseVoiceSpec} (hinv : SenseVoiceInv c)
    (r : Start SenseVoiceInputs) {stop : ℕ} (hstop : SenseVoiceSettled c r stop) :
    SenseVoiceInv ((ensure_sensevoice_trt_artifacts r).after stop c) := by
  rw [ensure_sensevoice_trt_artifacts, Prog.after_get]
  split
  · rwa [Prog.after_pure]
  · next reason hstale =>
    unfold build_sensevoice_trt_engine
    split
    · next trt bytes htrt hbuilt =>
      obtain ⟨hopened, hreplaced⟩ := hstop trt bytes htrt hbuilt (by rw [hstale]; exact nofun)
      rw [install_after]
      split
      · exact hinv
      · -- only the plan was replaced: the sidecar that is there says the same
        obtain ⟨plan, hinfo⟩ := hreplaced rfl
        rintro p hp -
        obtain rfl := Option.some.inj hp
        exact ⟨trt, _, plan, hinfo, List.mem_cons_self⟩
      · exact absurd rfl hopened
      · rintro p hp -
        obtain rfl := Option.some.inj hp
        exact ⟨trt, _, _, rfl, List.mem_cons_self⟩
    · rwa [Prog.after_pure]

/-- A start that returns without building, with TensorRT at hand. -/
theorem sensevoice_current {c : Cache SenseVoiceSpec} (hinv : SenseVoiceInv c)
    {r : Start SenseVoiceInputs} {trt : String} (htrt : r.trt = some trt)
    (hserved : ((ensure_sensevoice_trt_artifacts r).run c).1 = .served) :
    ((ensure_sensevoice_trt_artifacts r).run c).2 = c ∧
      Current c (sensevoice_build_spec r.inputs) trt := by
  rw [ensure_sensevoice_trt_artifacts, Prog.run_get_bind] at hserved ⊢
  cases hstale : sensevoice_engine_staleness c (sensevoice_build_spec r.inputs) r.trt with
  | some reason =>
    rw [hstale] at hserved
    simp only [build_sensevoice_trt_engine, htrt] at hserved
    cases hbuilt : r.built <;> rw [hbuilt] at hserved <;> cases hserved
  | none =>
    refine ⟨rfl, ?_⟩
    unfold sensevoice_engine_staleness at hstale
    split at hstale
    · cases hstale
    · next bytes hbytes =>
      obtain ⟨p, hp, rfl⟩ := plan_of_bytes hbytes
      refine ⟨p, hp, ?_⟩
      by_cases hhand : p.by_hand = true
      · exact Or.inl hhand
      · obtain ⟨built_trt, built_spec, plan, hinfo, hmem⟩ := hinv p hp (by simpa using hhand)
        rw [hinfo, htrt] at hstale
        simp only [Option.any_some] at hstale
        split at hstale
        · cases hstale
        · next hversion =>
          split at hstale
          · cases hstale
          · next hspec =>
            have hversion : built_trt = trt := by simpa using hversion
            have hspec : built_spec = sensevoice_build_spec r.inputs := by simpa using hspec
            exact Or.inr (hversion ▸ hspec ▸ hmem)

/-! ### Whisper -/

section
variable (sha256 : List UInt8 → String) (is_the_encoder : String → List UInt8 → Bool)

/-- A plan that was built has a sidecar, and one that carries its size and hash is that of a build
    of it. -/
structure WhisperInv (c : Cache WhisperSpec) : Prop where
  known : ∀ p, c.plan = some p → p.by_hand = false → c.info ≠ .missing
  honest : ∀ p trt spec, c.plan = some p → p.by_hand = false →
    c.info = .written trt spec (some (p.bytes.length, sha256 p.bytes)) →
      (spec, trt, p.bytes) ∈ c.builds

/-- A start that comes to build is not stopped right after the plan was replaced, unless there is a
    sidecar, and not one with the size and hash of the new plan that is not of a build of it. -/
def WhisperSettled (c : Cache WhisperSpec) (r : Start WhisperInputs) (stop : ℕ) : Prop :=
  ∀ trt bytes, r.trt = some trt → r.built = some bytes →
    whisper_check sha256 is_the_encoder c (whisper_trt_build_spec r.inputs) trt = none → stop = 1 →
    c.info ≠ .missing ∧ ∀ trt' spec',
      c.info = .written trt' spec' (some (bytes.length, sha256 bytes)) →
        (spec', trt', bytes) ∈ (whisper_trt_build_spec r.inputs, trt, bytes) :: c.builds

variable {sha256 is_the_encoder}

theorem whisper_inv_start {c : Cache WhisperSpec} (hinv : WhisperInv sha256 c)
    (r : Start WhisperInputs) {stop : ℕ} (hstop : WhisperSettled sha256 is_the_encoder c r stop) :
    WhisperInv sha256 ((build_whisper_trt_engine sha256 is_the_encoder r).after stop c) := by
  unfold build_whisper_trt_engine
  split
  · rwa [Prog.after_pure]
  · next trt htrt =>
    rw [Prog.after_get]
    split
    · rwa [Prog.after_pure]
    · next hcheck =>
      split
      · rwa [Prog.after_pure]
      · next bytes hbuilt =>
        rw [install_after]
        split
        · exact hinv
        · obtain ⟨hinfo, hhonest⟩ := hstop trt bytes htrt hbuilt hcheck rfl
          refine ⟨fun p _ _ => hinfo, ?_⟩
          rintro p trt' spec' hp - hwritten
          obtain rfl := Option.some.inj hp
          exact hhonest trt' spec' hwritten
        · exact ⟨nofun, nofun⟩
        · refine ⟨nofun, ?_⟩
          rintro p trt' spec' hp - hwritten
          obtain rfl := Option.some.inj hp
          cases hwritten
          exact List.mem_cons_self

/-- A start that returns without building. -/
theorem whisper_current {c : Cache WhisperSpec} (hinv : WhisperInv sha256 c)
    {r : Start WhisperInputs} {trt : String} (htrt : r.trt = some trt)
    (hserved : ((build_whisper_trt_engine sha256 is_the_encoder r).run c).1 = .served) :
    ((build_whisper_trt_engine sha256 is_the_encoder r).run c).2 = c ∧
      Current c (whisper_trt_build_spec r.inputs) trt := by
  simp only [build_whisper_trt_engine, htrt, Prog.run_get_bind] at hserved ⊢
  cases hcheck : whisper_check sha256 is_the_encoder c (whisper_trt_build_spec r.inputs) trt with
  | none =>
    rw [hcheck] at hserved
    cases hbuilt : r.built <;> rw [hbuilt] at hserved <;> cases hserved
  | some outcome =>
    refine ⟨rfl, ?_⟩
    unfold whisper_check at hcheck
    split at hcheck
    · cases hcheck
    · next bytes hbytes =>
      obtain ⟨p, hp, rfl⟩ := plan_of_bytes hbytes
      refine ⟨p, hp, ?_⟩
      by_cases hhand : p.by_hand = true
      · exact Or.inl hhand
      · have hbuilt : p.by_hand = false := by simpa using hhand
        split at hcheck
        · next hinfo => exact absurd hinfo (hinv.known p hp hbuilt)
        · cases hcheck
        · cases hcheck
        · next built_trt built_spec plan_bytes plan_sha256 hinfo =>
          split at hcheck
          · next hsame =>
            obtain ⟨rfl, rfl, rfl, rfl⟩ := hsame
            exact Or.inr (hinv.honest p _ _ hp hbuilt hinfo)
          · cases hcheck

/-! ### Runs -/

theorem sensevoice_inv_empty : SenseVoiceInv .empty := by
  intro p hp
  cases hp

theorem whisper_inv_empty : WhisperInv sha256 .empty := by
  refine ⟨fun p hp => ?_, fun p _ _ hp => ?_⟩ <;> cases hp

theorem inv_supply_sensevoice {c : Cache SenseVoiceSpec} (bytes : List UInt8) (keep_info : Bool) :
    SenseVoiceInv (supply bytes keep_info c) := by
  intro p hp hhand
  obtain rfl := Option.some.inj hp
  cases hhand

theorem inv_supply_whisper {c : Cache WhisperSpec} (bytes : List UInt8) (keep_info : Bool) :
    WhisperInv sha256 (supply bytes keep_info c) := by
  refine ⟨fun p hp hhand => ?_, fun p _ _ hp hhand => ?_⟩
  · obtain rfl := Option.some.inj hp
    cases hhand
  · obtain rfl := Option.some.inj hp
    cases hhand

/-- The condition on an event: what the starts ask for; an operator may do what they like. -/
def Settled (sha256 : List UInt8 → String) (is_the_encoder : String → List UInt8 → Bool) (s : Disk) :
    Event → Prop
  | .sensevoice r stop => SenseVoiceSettled s.sensevoice r stop
  | .whisper r stop => WhisperSettled sha256 is_the_encoder s.whisper r stop
  | .supply_sensevoice _ _ | .supply_whisper _ _ => True

/-- An event leads from one disk to the next. -/
def Steps (sha256 : List UInt8 → String) (is_the_encoder : String → List UInt8 → Bool) (s : Disk)
    (e : Event) (t : Disk) : Prop :=
  step sha256 is_the_encoder s e = t

/-- No engine on disk. -/
def blank : Disk := ⟨.empty, .empty⟩

theorem run_inv {s : Disk} {events : List Event}
    (h : Run (restrict (Settled sha256 is_the_encoder) (Steps sha256 is_the_encoder)) blank events s) :
    SenseVoiceInv s.sensevoice ∧ WhisperInv sha256 s.whisper := by
  refine Run.invariant (I := fun s => SenseVoiceInv s.sensevoice ∧ WhisperInv sha256 s.whisper)
    ?_ ⟨sensevoice_inv_empty, whisper_inv_empty⟩ h
  rintro s e t ⟨hsensevoice, hwhisper⟩ ⟨hsettled, rfl⟩
  cases e with
  | sensevoice r stop => exact ⟨sensevoice_inv_start hsensevoice r hsettled, hwhisper⟩
  | whisper r stop => exact ⟨hsensevoice, whisper_inv_start hwhisper r hsettled⟩
  | supply_sensevoice bytes keep_info => exact ⟨inv_supply_sensevoice bytes keep_info, hwhisper⟩
  | supply_whisper bytes keep_info => exact ⟨hsensevoice, inv_supply_whisper bytes keep_info⟩

/-- Starts of both engines, each settled: a later start that returns without building, with TensorRT
    at hand, leaves the disk as it is, and the plan on it is the output of a build with exactly the
    specification and the version of that start, or was placed by an operator. -/
theorem served_is_current {s : Disk} {events : List Event}
    (h : Run (restrict (Settled sha256 is_the_encoder) (Steps sha256 is_the_encoder)) blank events s) :
    (∀ r trt, r.trt = some trt → ((ensure_sensevoice_trt_artifacts r).run s.sensevoice).1 = .served →
      ((ensure_sensevoice_trt_artifacts r).run s.sensevoice).2 = s.sensevoice ∧
        Current s.sensevoice (sensevoice_build_spec r.inputs) trt) ∧
    ∀ r trt, r.trt = some trt →
      ((build_whisper_trt_engine sha256 is_the_encoder r).run s.whisper).1 = .served →
        ((build_whisper_trt_engine sha256 is_the_encoder r).run s.whisper).2 = s.whisper ∧
          Current s.whisper (whisper_trt_build_spec r.inputs) trt :=
  ⟨fun _ _ htrt hserved => sensevoice_current (run_inv h).1 htrt hserved,
    fun _ _ htrt hserved => whisper_current (run_inv h).2 htrt hserved⟩

end

/-! ### A build stopped before its sidecar -/

def same_sha256 : List UInt8 → String := fun _ => "h"

def any_engine : String → List UInt8 → Bool := fun _ _ => true

/-- A start with TensorRT 10.3, with the switch for the folded argmax as given. -/
def start_with (argmax : Option String) : Start SenseVoiceInputs :=
  ⟨⟨"model.onnx", "h", none, none, none, argmax⟩, some "10.3", some [1]⟩

def whisper_start (workspace_gib : Option String) : Start WhisperInputs :=
  ⟨⟨"h", workspace_gib⟩, some "10.3", some [1]⟩

/-- Both engines built once, and not stopped. -/
def provisioned : List Event := [.sensevoice (start_with none) 3, .whisper (whisper_start none) 3]

theorem provisioned_run : Run (restrict (Settled same_sha256 any_engine) (Steps same_sha256 any_engine))
    blank provisioned (provisioned.foldl (step same_sha256 any_engine) blank) := by
  refine Run.snoc (Run.single ⟨?_, rfl⟩) ⟨?_, rfl⟩
  · exact fun trt bytes _ _ _ h => absurd h (by decide)
  · exact fun trt bytes _ _ _ => ⟨by decide, fun h => absurd h (by decide)⟩

theorem served_is_current_provisioned :
    (∀ r trt, r.trt = some trt → ((ensure_sensevoice_trt_artifacts r).run
        (provisioned.foldl (step same_sha256 any_engine) blank).sensevoice).1 = .served →
      ((ensure_sensevoice_trt_artifacts r).run
        (provisioned.foldl (step same_sha256 any_engine) blank).sensevoice).2 =
          (provisioned.foldl (step same_sha256 any_engine) blank).sensevoice ∧
        Current (provisioned.foldl (step same_sha256 any_engine) blank).sensevoice
          (sensevoice_build_spec r.inputs) trt) ∧
    ∀ r trt, r.trt = some trt → ((build_whisper_trt_engine same_sha256 any_engine r).run
        (provisioned.foldl (step same_sha256 any_engine) blank).whisper).1 = .served →
      ((build_whisper_trt_engine same_sha256 any_engine r).run
        (provisioned.foldl (step same_sha256 any_engine) blank).whisper).2 =
          (provisioned.foldl (step same_sha256 any_engine) blank).whisper ∧
        Current (provisioned.foldl (step same_sha256 any_engine) blank).whisper
          (whisper_trt_build_spec r.inputs) trt :=
  served_is_current provisioned_run

/-- A build with the argmax folded, stopped once the plan is in its place: the next start without the
    switch finds no sidecar, and serves the plan. -/
def stopped : List Event := [.sensevoice (start_with (some "1")) 1]

theorem stopped_engine_served : ¬ ∀ (events : List Event) (s : Disk),
    Run (Steps same_sha256 any_engine) blank events s →
    ∀ r trt, r.trt = some trt → ((ensure_sensevoice_trt_artifacts r).run s.sensevoice).1 = .served →
      Current s.sensevoice (sensevoice_build_spec r.inputs) trt := by
  intro hall
  obtain ⟨p, hp, hcurrent⟩ := hall stopped (stopped.foldl (step same_sha256 any_engine) blank)
    (Run.single rfl) (start_with none) "10.3" rfl (by decide)
  obtain rfl : (⟨[1], false⟩ : Plan) = p := Option.some.inj hp
  have hbuilds : (stopped.foldl (step same_sha256 any_engine) blank).sensevoice.builds =
      [(sensevoice_build_spec (start_with (some "1")).inputs, "10.3", [1])] := rfl
  rw [hbuilds] at hcurrent
  revert hcurrent
  decide

end LocalVoice.ModelDownloader
