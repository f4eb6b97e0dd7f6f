import LocalVoice.Lib.Json

/-! `_resolve_one` of `server/core/engine_resolver.py` over the directory of one engine, boot after
    boot. A local engine is accepted when its sidecar matches the host and the bytes, or once more,
    when it has no sidecar or one of the schema before platforms were recorded. A refusal takes the
    sidecar away before it asks HuggingFace, so the next boot finds an engine without a sidecar.

        sidecar matches ──▶ accepted
        no sidecar / legacy ──▶ sidecar written ──▶ accepted
        otherwise ──▶ sidecar unlinked ──▶ HuggingFace ──▶ resolved, or raised -/

namespace LocalVoice.EngineResolver
open LocalVoice.Lib

structure HostSignature where
  sm : String
  trt_version : String
  jp_version : String
  cuda_version : String
  platform : String

/-- The `host` object of a sidecar: its values under the five keys, null if missing, and whether
    there are others. -/
structure CachedHost where
  sm : Json
  trt_version : Json
  jp_version : Json
  cuda_version : Json
  platform : Option Json
  other_keys : Bool
  deriving DecidableEq

def HostSignature.to_dict (h : HostSignature) : CachedHost :=
  ⟨.str h.sm, .str h.trt_version, .str h.jp_version, .str h.cuda_version, some (.str h.platform),
    false⟩

/-- A sidecar that is a JSON object; `host` is none if that is no object, a missing field null. -/
structure Meta where
  host : Option CachedHost
  engine_sha256 : Json
  onnx_sha256 : Json
  source : Json
  bundle_sha256 : Json
  bundle_size : Json

/-- What stands at the path of the sidecar. `undecodable` is not text, which the reader does not
    catch; `invalid` cannot be read or parsed, or is `null`. -/
inductive Sidecar where
  | absent
  | directory
  | undecodable
  | invalid
  | not_object (truthy : Bool)
  | object (m : Meta)

inductive EngineFile where
  | missing
  | not_a_file
  | file (bytes : List UInt8)

/-- The directory of an engine. -/
structure Directory where
  engine : EngineFile
  sidecar : Sidecar

/-- The fields of a spec that `_resolve_one` reads; `release_lock` is what
    `_release_integrity_lock` returns for it, a hash and a size. -/
structure EngineSpec where
  require_published_integrity : Bool
  release_lock : Option (Json × Json)

/-- A call of `_resolve_one`: the switch and whether the spec's extra files are there. -/
structure Boot where
  force_rebuild : Bool
  extra_files_exist : Bool

section
variable (sha256 : List UInt8 → String) (host : HostSignature)

/-- `_sha256_file`; `none` is an exception, as below. -/
def EngineFile.sha : EngineFile → Option String
  | .file bytes => some (sha256 bytes)
  | _ => none

def meta_matches (d : Directory) : Option Bool :=
  match d.engine, d.sidecar with
  | .missing, _ => some false
  | _, .absent | _, .directory | _, .invalid | _, .not_object false => some false
  | _, .undecodable | _, .not_object true => none
  | engine, .object m =>
    if m.host = some host.to_dict then (engine.sha sha256).map fun sha => m.engine_sha256 = .str sha
    else some false

/-- The schema before platforms: on Tegra, and every field it knew about still matches. -/
def CachedHost.legacy (cached : CachedHost) : Bool :=
  cached.platform.isNone && host.platform = "tegra" && cached.sm = .str host.sm &&
    cached.trt_version = .str host.trt_version && cached.jp_version = .str host.jp_version &&
    cached.cuda_version = .str host.cuda_version

/-- `_write_meta` after a migration. -/
def Directory.write_meta (d : Directory) (bytes : List UInt8) (onnx_sha : Json) : Directory :=
  { d with sidecar := .object ⟨some host.to_dict, .str (sha256 bytes), onnx_sha,
      .str "existing_install_migration", .null, .null⟩ }

def migrate_existing_engine (d : Directory) : Option (Directory × Bool) :=
  match d.engine with
  | .file bytes =>
    if bytes = [] then some (d, false)
    else match d.sidecar with
      | .absent => some (d.write_meta sha256 host bytes .null, true)
      | .directory | .invalid => some (d, false)
      | .undecodable | .not_object _ => none
      | .object m =>
        if (m.host.map (·.legacy host)).getD false &&
          (!m.engine_sha256.truthy || m.engine_sha256 = .str (sha256 bytes)) then
          some (d.write_meta sha256 host bytes m.onnx_sha256, true)
        else some (d, false)
  | _ => some (d, false)

/-- `_meta_path(...).unlink(missing_ok=True)`. -/
def Directory.unlink_meta (d : Directory) : Option Directory :=
  match d.sidecar with
  | .directory => none
  | _ => some { d with sidecar := .absent }

/-- The provenance check of a release-locked spec. -/
def EngineSpec.verified (spec : EngineSpec) (d : Directory) : Bool :=
  !spec.require_published_integrity || match spec.release_lock, d.sidecar with
    | some (sha, size), .object m =>
      m.source = .str "hf_bundle" && m.bundle_sha256 = sha && m.bundle_size = size
    | _, _ => false

/-- The tail of `_resolve_one`, with `_try_hf_resolve`; the flag says that it returns. -/
def from_hf (try_hf_resolve : Directory → Directory × Bool) (d : Directory) : Directory × Bool :=
  match d.unlink_meta with
  | some d' => try_hf_resolve d'
  | none => (d, false)

/-- `_resolve_one`: the directory it leaves, and whether it returns; it raises otherwise. -/
def resolve_one (spec : EngineSpec) (try_hf_resolve : Directory → Directory × Bool) (boot : Boot)
    (d : Directory) : Directory × Bool :=
  match meta_matches sha256 host d with
  | none => (d, false)
  | some cache_valid =>
    if !boot.force_rebuild && (cache_valid && spec.verified d) && boot.extra_files_exist then
      (d, true)
    else if !boot.force_rebuild && !spec.require_published_integrity && boot.extra_files_exist then
      match migrate_existing_engine sha256 host d with
      | none => (d, false)
      | some (d', true) => (d', true)
      | some (_, false) => from_hf try_hf_resolve d
    else from_hf try_hf_resolve d

/-- The directory after boots, one after the other. -/
def boots (spec : EngineSpec) (try_hf_resolve : Directory → Directory × Bool) (d : Directory)
    (before : List Boot) : Directory :=
  before.foldl (fun d boot => (resolve_one sha256 host spec try_hf_resolve boot d).1) d

/-! ### Acceptance -/

/-- The local engine is accepted, by its sidecar or by migration. -/
def Accepts (d : Directory) : Prop :=
  meta_matches sha256 host d = some true ∨
    ∃ d', migrate_existing_engine sha256 host d = some (d', true)

/-- A regular file with something in it. -/
def EngineFile.Nonempty (e : EngineFile) : Prop := ∃ bytes, e = .file bytes ∧ bytes ≠ []

/-- A sidecar on which the check itself raises, or that cannot be taken away. -/
def Sidecar.Pinned : Sidecar → Prop
  | .directory | .undecodable | .not_object true => True
  | _ => False

/-- Refused for good: not accepted, and a lost sidecar would change nothing. -/
structure Refused (d : Directory) : Prop where
  refused : ¬ Accepts sha256 host d
  stays : ¬ d.engine.Nonempty ∨ d.sidecar.Pinned

/-- HuggingFace cannot be reached: nothing changes and nothing is resolved. -/
def Unavailable (try_hf_resolve : Directory → Directory × Bool) : Prop :=
  ∀ d, try_hf_resolve d = (d, false)

variable {sha256 host} (spec : EngineSpec) {try_hf_resolve : Directory → Directory × Bool}

/-- Without HuggingFace the tail raises, and the sidecar is gone if it can be. -/
theorem from_hf_unavailable (hhf : Unavailable try_hf_resolve) (d : Directory) :
    from_hf try_hf_resolve d = ((d.unlink_meta).getD d, false) := by
  unfold from_hf
  cases d.unlink_meta with
  | none => rfl
  | some d' => exact hhf d'

/-- A call on an engine that is not accepted raises, and leaves the directory or takes the sidecar
    away. -/
theorem resolve_one_refused (hhf : Unavailable try_hf_resolve) {d : Directory}
    (h : ¬ Accepts sha256 host d) (boot : Boot) :
    (resolve_one sha256 host spec try_hf_resolve boot d).2 = false ∧
      ((resolve_one sha256 host spec try_hf_resolve boot d).1 = d ∨
        (resolve_one sha256 host spec try_hf_resolve boot d).1 = (d.unlink_meta).getD d) := by
  have htail := from_hf_unavailable hhf d
  unfold resolve_one
  cases hm : meta_matches sha256 host d with
  | none => exact ⟨rfl, Or.inl rfl⟩
  | some cache_valid =>
    have hinvalid : cache_valid = false := by
      cases cache_valid with
      | false => rfl
      | true => exact absurd (Or.inl hm) h
    simp only [hinvalid, Bool.false_and, Bool.and_false, Bool.false_eq_true, if_false, htail]
    split
    · split
      · exact ⟨rfl, Or.inl rfl⟩
      · rename_i d' hmig
        exact absurd (Or.inr ⟨d', hmig⟩) h
      · exact ⟨rfl, Or.inr rfl⟩
    · exact ⟨rfl, Or.inr rfl⟩

theorem unlink_meta_engine (d : Directory) : ((d.unlink_meta).getD d).engine = d.engine := by
  unfold Directory.unlink_meta
  split <;> rfl

/-- An engine without content is not adopted when it has no sidecar. -/
theorem not_accepts_of_empty {d : Directory} (h : ¬ d.engine.Nonempty)
    (hs : d.sidecar = .absent) : ¬ Accepts sha256 host d := by
  obtain ⟨engine, sidecar⟩ := d
  obtain rfl : sidecar = .absent := hs
  rintro (hm | ⟨d', hmig⟩)
  · cases engine <;> cases hm
  · cases engine with
    | file bytes =>
      have hempty : bytes = [] := Classical.byContradiction fun hne => h ⟨bytes, rfl, hne⟩
      simp [migrate_existing_engine, hempty] at hmig
    | missing | not_a_file => simp [migrate_existing_engine] at hmig

/-- With a pinned sidecar a call on a non-empty engine leaves the directory as it is. -/
theorem resolve_one_pinned (hhf : Unavailable try_hf_resolve) {d : Directory}
    (h : ¬ Accepts sha256 host d) (hne : d.engine.Nonempty) (hp : d.sidecar.Pinned) (boot : Boot) :
    (resolve_one sha256 host spec try_hf_resolve boot d).1 = d := by
  have hor := (resolve_one_refused spec hhf h boot).2
  obtain ⟨engine, sidecar⟩ := d
  obtain ⟨bytes, rfl, -⟩ : engine.Nonempty := hne
  cases sidecar with
  | directory => exact hor.elim id id
  | undecodable => rfl
  | not_object truthy =>
    cases truthy with
    | true => rfl
    | false => exact absurd hp id
  | absent | invalid | object => exact absurd hp id

/-- A call keeps a lasting refusal. -/
theorem refused_step (hhf : Unavailable try_hf_resolve) {d : Directory}
    (h : Refused sha256 host d) (boot : Boot) :
    Refused sha256 host (resolve_one sha256 host spec try_hf_resolve boot d).1 := by
  by_cases hne : d.engine.Nonempty
  · rw [resolve_one_pinned spec hhf h.refused hne (h.stays.resolve_left (absurd hne)) boot]
    exact h
  · rcases (resolve_one_refused spec hhf h.refused boot).2 with heq | heq
    · rw [heq]
      exact h
    · rw [heq]
      have hne' : ¬ ((d.unlink_meta).getD d).engine.Nonempty := by rwa [unlink_meta_engine]
      refine ⟨?_, Or.inl hne'⟩
      by_cases hdir : d.unlink_meta = none
      · rw [hdir]
        exact h.refused
      · refine not_accepts_of_empty hne' ?_
        cases hs : d.sidecar <;> simp_all [Directory.unlink_meta]

/-- Boots keep a lasting refusal. -/
theorem refused_boots (hhf : Unavailable try_hf_resolve) (before : List Boot) {d : Directory}
    (h : Refused sha256 host d) :
    Refused sha256 host (boots sha256 host spec try_hf_resolve d before) := by
  induction before generalizing d with
  | nil => exact h
  | cons boot rest ih => exact ih (refused_step spec hhf h boot)

/-- A forced rebuild takes away the sidecar of a non-empty engine, unless that is pinned. -/
theorem forced_unlinks (sha256 : List UInt8 → String) (host : HostSignature) (hhf : Unavailable try_hf_resolve) {d : Directory}
    (hne : d.engine.Nonempty) (hp : ¬ d.sidecar.Pinned) :
    (resolve_one sha256 host spec try_hf_resolve ⟨true, true⟩ d).1 = { d with sidecar := .absent } := by
  obtain ⟨engine, sidecar⟩ := d
  obtain ⟨bytes, rfl, -⟩ : engine.Nonempty := hne
  have hread : ∃ b, meta_matches sha256 host ⟨.file bytes, sidecar⟩ = some b := by
    cases sidecar with
    | directory | undecodable => exact absurd trivial hp
    | not_object truthy =>
      cases truthy with
      | true => exact absurd trivial hp
      | false => exact ⟨false, rfl⟩
    | absent | invalid => exact ⟨false, rfl⟩
    | object m =>
      simp only [meta_matches, EngineFile.sha, Option.map_some]
      split <;> exact ⟨_, rfl⟩
  obtain ⟨b, hb⟩ := hread
  have hunlink : (⟨.file bytes, sidecar⟩ : Directory).unlink_meta = some ⟨.file bytes, .absent⟩ := by
    cases sidecar with
    | directory => exact absurd trivial hp
    | _ => rfl
  simp only [resolve_one, hb, Bool.not_true, Bool.false_and, Bool.false_eq_true, if_false]
  rw [from_hf_unavailable hhf, hunlink]
  rfl

/-- A non-empty engine without a sidecar is adopted. -/
theorem adopted (hspec : spec.require_published_integrity = false) {bytes : List UInt8}
    (hne : bytes ≠ []) :
    (resolve_one sha256 host spec try_hf_resolve ⟨false, true⟩ ⟨.file bytes, .absent⟩).2 = true := by
  simp [resolve_one, meta_matches, migrate_existing_engine, hspec, hne]

/-- Without HuggingFace, and for a spec that is not release-locked: a call on an engine that is not
    accepted raises, and every later call raises, whatever its switch and the extra files are, if and
    only if the engine is no regular file with content or its sidecar cannot be read past or taken
    away. -/
theorem refusal_lasts_iff (hspec : spec.require_published_integrity = false)
    (hhf : Unavailable try_hf_resolve) {d : Directory} (h : ¬ Accepts sha256 host d) (boot : Boot) :
    (resolve_one sha256 host spec try_hf_resolve boot d).2 = false ∧
    ((∀ before later, (resolve_one sha256 host spec try_hf_resolve later (boots sha256 host spec
        try_hf_resolve (resolve_one sha256 host spec try_hf_resolve boot d).1 before)).2 = false) ↔
      ¬ d.engine.Nonempty ∨ d.sidecar.Pinned) := by
  refine ⟨(resolve_one_refused spec hhf h boot).1, fun hall => ?_, fun hstays before later => ?_⟩
  · -- a forced rebuild leaves no sidecar, and the boot after it adopts the engine
    by_cases hne : d.engine.Nonempty
    · refine Or.inr (Classical.byContradiction fun hp => ?_)
      obtain ⟨bytes, hbytes, hcontent⟩ := hne
      have hengine : (resolve_one sha256 host spec try_hf_resolve boot d).1.engine = .file bytes ∧
          ¬ (resolve_one sha256 host spec try_hf_resolve boot d).1.sidecar.Pinned := by
        rcases (resolve_one_refused spec hhf h boot).2 with heq | heq
        · rw [heq]
          exact ⟨hbytes, hp⟩
        · rw [heq]
          refine ⟨(unlink_meta_engine d).trans hbytes, ?_⟩
          cases hs : d.sidecar <;> simp_all [Directory.unlink_meta, Sidecar.Pinned]
      have hforced := forced_unlinks spec sha256 host hhf
        ⟨bytes, hengine.1, hcontent⟩ hengine.2
      have hlast := hall [⟨true, true⟩] ⟨false, true⟩
      rw [boots, List.foldl_cons, List.foldl_nil, hforced, hengine.1,
        adopted spec hspec hcontent] at hlast
      cases hlast
    · exact Or.inl hne
  · have hkept := refused_boots spec hhf before
      (refused_step spec hhf ⟨h, hstays⟩ boot)
    exact (resolve_one_refused spec hhf hkept.refused later).1

end

/-! ### An engine built on another device -/

def this_host : HostSignature := ⟨"87", "10.3", "6.2", "12.6", "tegra"⟩

/-- The sidecar of another host, with the hash of the bytes under it. -/
def other_sidecar : Sidecar := .object ⟨some ⟨.str "72", .str "8.5", .str "5.1", .str "11.4",
  some (.str "tegra"), false⟩, .str "h", .null, .str "hf_bundle", .null, .null⟩

def unlocked : EngineSpec := ⟨false, none⟩

/-- Every file has the hash `h`, and HuggingFace is out of reach. -/
def same_hash : List UInt8 → String := fun _ => "h"

def offline (d : Directory) : Directory × Bool := (d, false)

theorem refusal_lasts_empty :
    (resolve_one same_hash this_host unlocked offline ⟨false, true⟩
      ⟨.file [], other_sidecar⟩).2 = false ∧
    ((∀ before later, (resolve_one same_hash this_host unlocked offline later
        (boots same_hash this_host unlocked offline (resolve_one same_hash this_host unlocked offline
          ⟨false, true⟩ ⟨.file [], other_sidecar⟩).1 before)).2 = false) ↔
      ¬ (EngineFile.file []).Nonempty ∨ other_sidecar.Pinned) :=
  refusal_lasts_iff unlocked (d := ⟨.file [], other_sidecar⟩) rfl (fun _ => rfl)
    (by rintro (h | ⟨d', h⟩) <;> cases h) ⟨false, true⟩

/-- The engine of another host is refused at the first boot and accepted at the second. -/
theorem stale_engine_accepted : ¬ ∀ (d : Directory) (boot later : Boot),
    ¬ Accepts same_hash this_host d →
    (resolve_one same_hash this_host unlocked offline boot d).2 = false →
    (resolve_one same_hash this_host unlocked offline later
      (resolve_one same_hash this_host unlocked offline boot d).1).2 = false := by
  intro hall
  have hsecond := hall ⟨.file [1], other_sidecar⟩ ⟨false, true⟩ ⟨false, true⟩
    (by rintro (h | ⟨d', h⟩) <;> cases h) (by decide)
  exact absurd hsecond (by decide)

end LocalVoice.EngineResolver
