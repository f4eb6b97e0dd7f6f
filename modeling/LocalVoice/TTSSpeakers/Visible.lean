import Mathlib.Algebra.Order.Ring.Int
import LocalVoice.TTSSpeakers.Layers

/-! Registrations are read back. A table in the cache is one that was built, so all a lookup sees is
    the layers; a registration under a canonical model id changes the file's layer at one id and
    drops the table that has it. -/

namespace LocalVoice.TTSSpeakers
open LocalVoice.Lib

/-- The cached tables are what presets, file and environment give. -/
def Registry.Coherent (s : Registry) : Prop :=
  ∀ model_id table, s.cache model_id = some table → s.build model_id = .ok table

/-- Two states that look up the same file under the same settings. -/
structure SameLayers (s t : Registry) : Prop where
  file : t.file = s.file
  env_overrides : t.env_overrides = s.env_overrides
  allow_unmapped : t.allow_unmapped = s.allow_unmapped

section
variable {s t : Registry} {d : FileData} {model_id : String} {sid : ℤ}

theorem canonical_idem (model_id : String) :
    canonical_model_id (canonical_model_id model_id) = canonical_model_id model_id := by
  cases h : model_aliases.lookup (PyText.strip model_id) with
  | none =>
    have hsame : canonical_model_id model_id = PyText.strip model_id := by
      rw [canonical_model_id, h]
      rfl
    rw [hsame, canonical_model_id, PyText.strip_strip, h]
    rfl
  | some target =>
    have hsame : canonical_model_id model_id = target := by
      rw [canonical_model_id, h]
      rfl
    have htarget : target = "qwen3-tts-0.6b-base" := by
      simp only [model_aliases, Dict.lookup_cons_ite, List.lookup_nil] at h
      split at h
      · exact (Option.some.inj h).symm
      · split at h
        · exact (Option.some.inj h).symm
        · cases h
    rw [hsame, htarget]
    decide

/-! ### Lookups in a coherent state -/

theorem SameLayers.build (h : SameLayers s t) (model_id : String) :
    t.build model_id = s.build model_id := by
  rw [Registry.build, Registry.build, h.file, h.env_overrides]

/-- A lookup returns the table that would be built. -/
theorem load_value (h : ∀ table, s.cache (canonical_model_id model_id) = some table →
      s.build (canonical_model_id model_id) = .ok table) :
    (s.load_speaker_map model_id).map Prod.fst = s.build (canonical_model_id model_id) := by
  rw [Registry.load_speaker_map]
  split
  · next table hcache => exact (h table hcache).symm
  · cases s.build (canonical_model_id model_id) <;> rfl

/-- A lookup may cache the table, and nothing else. -/
theorem load_keeps {table : Table} (hs : s.Coherent)
    (h : s.load_speaker_map model_id = .ok (table, t)) : SameLayers s t ∧ t.Coherent := by
  rw [Registry.load_speaker_map] at h
  split at h
  · obtain ⟨-, rfl⟩ := Prod.mk.inj (Except.ok.inj h)
    exact ⟨⟨rfl, rfl, rfl⟩, hs⟩
  · obtain ⟨built, hbuilt, heq⟩ := map_eq_ok.1 h
    obtain ⟨-, rfl⟩ := Prod.mk.inj heq
    have hsame : SameLayers s { s with
        cache := Function.update s.cache (canonical_model_id model_id) (some built) } :=
      ⟨rfl, rfl, rfl⟩
    refine ⟨hsame, fun other table' hcache => ?_⟩
    rw [hsame.build]
    dsimp only at hcache
    by_cases hother : other = canonical_model_id model_id
    · rw [hother, Function.update_self] at hcache
      rw [hother, hbuilt, Option.some.inj hcache]
    · rw [Function.update_of_ne hother] at hcache
      exact hs other table' hcache

theorem spec_value {table : Table} (hs : s.Coherent)
    (hbuild : s.build (canonical_model_id model_id) = .ok table) (i : ℤ) :
    (s.speaker_spec_for_id (some i) model_id).map Prod.fst =
      s.answer (canonical_model_id model_id) (selector_alias_id i (canonical_model_id model_id))
        (table (selector_alias_id i (canonical_model_id model_id))) := by
  have hload := load_value (hs (canonical_model_id (canonical_model_id model_id)))
  rw [canonical_idem, hbuild] at hload
  obtain ⟨⟨table', t⟩, hloaded, rfl⟩ := map_eq_ok.1 hload
  have hmap : ∀ x : Except Error (Option SpeakerSpec),
      (x.map fun spec => (spec, t)).map Prod.fst = x := fun x => by cases x <;> rfl
  rw [Registry.speaker_spec_for_id, hloaded]
  exact hmap _

theorem SameLayers.answer (h : SameLayers s t) (model_id : String) (i : ℤ)
    (spec : Option SpeakerSpec) : t.answer model_id i spec = s.answer model_id i spec := by
  cases spec with
  | some spec => rfl
  | none => rw [Registry.answer, Registry.answer, h.allow_unmapped]

theorem spec_keeps {speaker_id : Option ℤ} {spec : Option SpeakerSpec} (hs : s.Coherent)
    (h : s.speaker_spec_for_id speaker_id model_id = .ok (spec, t)) :
    SameLayers s t ∧ t.Coherent := by
  cases speaker_id with
  | none =>
    obtain ⟨-, rfl⟩ := Prod.mk.inj (Except.ok.inj h)
    exact ⟨⟨rfl, rfl, rfl⟩, hs⟩
  | some i =>
    obtain ⟨⟨table, t'⟩, hload, hrest⟩ := bind_eq_ok.1 h
    obtain ⟨_, _, heq⟩ := map_eq_ok.1 hrest
    obtain ⟨-, rfl⟩ := Prod.mk.inj heq
    exact load_keeps hs hload

/-! ### Writing -/

theorem le_foldl_max (i : ℤ) : ∀ l : List ℤ, i ≤ l.foldl max i ∧ ∀ j ∈ l, j ≤ l.foldl max i
  | [] => ⟨le_refl i, nofun⟩
  | k :: rest => by
    obtain ⟨hmax, hrest⟩ := le_foldl_max (max i k) rest
    refine ⟨le_trans (le_max_left i k) hmax, fun j hj => ?_⟩
    rcases List.mem_cons.1 hj with rfl | hj
    · exact le_trans (le_max_right i j) hmax
    · exact hrest j hj

theorem le_max_of {l : List ℤ} {i : ℤ} (h : i ∈ l) : i ≤ max_of l := by
  cases l with
  | nil => cases h
  | cons j rest =>
    obtain ⟨hj, hrest⟩ := le_foldl_max j rest
    rcases List.mem_cons.1 h with rfl | h
    · exact hj
    · exact hrest i h

/-- A validated payload is not empty. -/
theorem payload_ne_empty {payload : String} (h : validate_embedding_payload payload = .ok ()) :
    payload ≠ "" := by
  rintro rfl
  have hempty : validate_embedding_payload "" = .error .empty_payload := rfl
  rw [hempty] at h
  cases h

theorem choose_id_spec {speaker_id : Option ℤ} {id : ℤ} (hs : s.Coherent)
    (h : s.choose_id d model_id speaker_id = .ok (id, t)) :
    SameLayers s t ∧ t.Coherent ∧
      (speaker_id = none → ∀ i ∈ existing_ids d model_id, i < id) := by
  cases speaker_id with
  | none =>
    obtain ⟨rfl, rfl⟩ := Prod.mk.inj (Except.ok.inj h)
    refine ⟨⟨rfl, rfl, rfl⟩, hs, fun _ i hi => ?_⟩
    have hle := le_max_of hi
    omega
  | some sid =>
    rw [Registry.choose_id] at h
    split at h
    · obtain ⟨⟨spec, t'⟩, hspec, hrest⟩ := bind_eq_ok.1 h
      split at hrest
      · cases hrest
      · obtain ⟨-, rfl⟩ := Prod.mk.inj (Except.ok.inj hrest)
        obtain ⟨hsame, ht⟩ := spec_keeps hs hspec
        exact ⟨hsame, ht, nofun⟩
    · obtain ⟨-, rfl⟩ := Prod.mk.inj (Except.ok.inj h)
      exact ⟨⟨rfl, rfl, rfl⟩, hs, nofun⟩

/-- What a registration that returns has done. -/
theorem register_spec {r : Registration} {created : String} {spec : SpeakerSpec}
    (h : s.register_speaker r created = .ok (spec, t)) :
    ∃ d s', read_speaker_file_for_update s.file = .ok d ∧
      s.choose_id d r.model_id r.speaker_id = .ok (spec.id, s') ∧
      spec.type = .embedding ∧ spec.payload = r.payload ∧ spec.payload ≠ "" ∧
      t = s'.publish (put d r.model_id spec) r.model_id := by
  obtain ⟨_, hvalid, h⟩ := bind_eq_ok.1 h
  obtain ⟨d, hread, h⟩ := bind_eq_ok.1 h
  obtain ⟨⟨id, s'⟩, hid, h⟩ := bind_eq_ok.1 h
  obtain ⟨rfl, rfl⟩ := Prod.mk.inj (Except.ok.inj h)
  exact ⟨d, s', hread, hid, rfl, rfl, payload_ne_empty hvalid, rfl⟩

theorem unregister_spec (h : s.unregister_speaker model_id sid = .ok (true, t)) :
    ∃ d, read_speaker_file_for_update s.file = .ok d ∧ t = s.forget d model_id sid := by
  obtain ⟨d, hread, h⟩ := bind_eq_ok.1 h
  refine ⟨d, hread, ?_⟩
  split at h
  · obtain ⟨spec, _, h⟩ := bind_eq_ok.1 h
    split at h
    · cases h
    · exact (Prod.mk.inj (Except.ok.inj h)).2.symm
  · split at h
    · cases h
    · exact absurd (Prod.mk.inj (Except.ok.inj h)).1 nofun

/-- The tables after the file was written. -/
theorem build_written (hfile : t.file = write_json d) (hkept : WellKept d) (model_id : String) :
    t.build model_id = .ok (layered t.env_overrides d model_id) := by
  rw [t.build_eq (d := sorted d) model_id (.inr hfile) hkept.sorted, layered_sorted]

/-- An override is what its id has in every table. -/
theorem build_override {table : Table} {spec : SpeakerSpec} (h : s.build model_id = .ok table)
    (henv : s.env_overrides sid = some spec) : table sid = some spec := by
  obtain ⟨mapping, _, rfl⟩ := map_eq_ok.1 h
  dsimp only
  rw [henv]
  rfl

/-- An id that is in no table of the file is below the ids it has. -/
theorem layered_of_new {env : Table} (henv : env sid = none)
    (hnew : ∀ i ∈ existing_ids d model_id, i < sid) : layered env d model_id sid = none := by
  have hfree : sid ∉ existing_ids d model_id := fun h => lt_irrefl _ (hnew sid h)
  rw [existing_ids, List.mem_append, not_or] at hfree
  have hlayer : layer (model_table d model_id) sid = none := by
    rw [layer]
    cases hget : (model_table d model_id).get? (toString sid) with
    | none => rfl
    | some entry =>
      refine absurd (List.mem_filterMap.2 ⟨toString sid, ?_, PyText.int_toString sid⟩) hfree.2
      exact Dict.mem_keys.2 ⟨entry, hget⟩
  have hpreset : preset_table model_id sid = none := by
    refine List.find?_eq_none.2 fun spec hspec hid => hfree.1 (List.mem_map.2 ⟨spec, hspec, ?_⟩)
    exact of_decide_eq_true hid
  rw [layered, henv, hlayer, hpreset]
  rfl

end

/-- What a registration promises: `s` is the state before, `t` the one after it. -/
structure ReadBack (s t : Registry) (r : Registration) (spec : SpeakerSpec) : Prop where
  record : spec.type = .embedding ∧ spec.payload = r.payload
  found : (t.speaker_spec_for_id (some spec.id) r.model_id).map Prod.fst = .ok (some spec)
  loaded : ∃ table, (t.load_speaker_map r.model_id).map Prod.fst = .ok table ∧
    table spec.id = some spec
  unused : r.speaker_id = none → ∃ table,
    (s.load_speaker_map r.model_id).map Prod.fst = .ok table ∧ table spec.id = none
  others : ∀ model_id i,
    ¬ (canonical_model_id model_id = canonical_model_id r.model_id ∧ i = spec.id) →
    (t.speaker_spec_for_id (some i) model_id).map Prod.fst =
      (s.speaker_spec_for_id (some i) model_id).map Prod.fst

section
variable {s s' t : Registry} {d : FileData} {model_id : String} {spec : SpeakerSpec} {sid : ℤ}

/-- A registration changes one id of one model's table. -/
theorem layered_put {env : Table} (henv : env spec.id = none)
    (hparse : parse_speaker_entry spec.id (entry_of spec) = .ok spec) (m : String) (i : ℤ) :
    layered env (put d model_id spec) m i =
      if m = model_id ∧ i = spec.id then some spec else layered env d m i := by
  rw [layered, layered, layer_put hparse]
  by_cases h : m = model_id ∧ i = spec.id
  · rw [if_pos h, if_pos h, h.2, henv]
    rfl
  · rw [if_neg h, if_neg h]

theorem layered_put_other {env : Table} {m : String}
    (hparse : parse_speaker_entry spec.id (entry_of spec) = .ok spec) (hm : m ≠ model_id) :
    layered env (put d model_id spec) m = layered env d m := by
  funext i
  rw [layered, layered, layer_put hparse, if_neg fun h => hm h.1]

/-- The table that changes is the one that is dropped from the cache. -/
theorem publish_coherent (hsame : SameLayers s s') (hs' : s'.Coherent)
    (hshows : s.file.Shows d) (hkept : WellKept d)
    (hparse : parse_speaker_entry spec.id (entry_of spec) = .ok spec) :
    (s'.publish (put d model_id spec) model_id).Coherent := by
  intro m table hcache
  have hbuild : (s'.publish (put d model_id spec) model_id).build m =
      .ok (layered s'.env_overrides (put d model_id spec) m) :=
    build_written rfl (hkept.put hparse) m
  rw [Registry.publish] at hcache
  dsimp only at hcache
  by_cases hm : m = model_id
  · rw [hm, Function.update_self] at hcache
    cases hcache
  · rw [Function.update_of_ne hm] at hcache
    have htable := hs' m table hcache
    rw [hsame.build, s.build_eq m hshows hkept] at htable
    rw [hbuild, ← htable, hsame.env_overrides, layered_put_other hparse hm]

end

/-- A registration under a canonical model id, with an id that no override and no alias has. -/
theorem register_reads_back {s t : Registry} {r : Registration} {created : String}
    {spec : SpeakerSpec} (hs : s.Coherent) (hspelled : s.file.Spelled)
    (hregister : s.register_speaker r created = .ok (spec, t))
    (hmodel : canonical_model_id r.model_id = r.model_id) (henv : s.env_overrides spec.id = none)
    (halias : ∀ i, selector_alias_id i r.model_id = spec.id ↔ i = spec.id) :
    ReadBack s t r spec := by
  obtain ⟨d, s', hread, hid, htype, hpayload, hne, rfl⟩ := register_spec hregister
  obtain ⟨hsame, hs', hnew⟩ := choose_id_spec hs hid
  obtain ⟨hshows, hkept⟩ := read_spec hread hspelled
  have hparse := parse_entry_of htype hne
  have hbefore : ∀ m, s.build m = .ok (layered s.env_overrides d m) :=
    fun m => s.build_eq m hshows hkept
  have hafter : ∀ m, (s'.publish (put d r.model_id spec) r.model_id).build m =
      .ok (layered s.env_overrides (put d r.model_id spec) m) := by
    intro m
    rw [← hsame.env_overrides]
    exact build_written rfl (hkept.put hparse) m
  have hcoherent : (s'.publish (put d r.model_id spec) r.model_id).Coherent :=
    publish_coherent hsame hs' hshows hkept hparse
  refine ⟨⟨htype, hpayload⟩, ?_, ?_, ?_, ?_⟩
  · rw [spec_value hcoherent (hafter _), hmodel, (halias spec.id).2 rfl, layered_put henv hparse,
      if_pos ⟨rfl, rfl⟩]
    rfl
  · refine ⟨_, (load_value (hcoherent _)).trans (hafter _), ?_⟩
    rw [layered_put henv hparse, if_pos ⟨hmodel, rfl⟩]
  · intro hauto
    refine ⟨_, (load_value (hs _)).trans (hbefore _), ?_⟩
    rw [hmodel]
    exact layered_of_new henv (hnew hauto)
  · intro m i hother
    have hsame' : SameLayers { s with file := write_json (put d r.model_id spec) }
        (s'.publish (put d r.model_id spec) r.model_id) :=
      ⟨rfl, hsame.env_overrides, hsame.allow_unmapped⟩
    rw [spec_value hcoherent (hafter _), spec_value hs (hbefore _), layered_put henv hparse,
      if_neg, hsame'.answer]
    · rfl
    · rintro ⟨hm, hi⟩
      refine hother ⟨hm.trans hmodel.symm, (halias i).1 ?_⟩
      rw [← hm]
      exact hi

/-- A removal, of an id with nothing beneath the file or from a model that is not cached. -/
theorem unregister_reads_back {s t : Registry} {model_id : String} {sid : ℤ} (hs : s.Coherent)
    (hspelled : s.file.Spelled) (hunregister : s.unregister_speaker model_id sid = .ok (true, t))
    (hbeneath : canonical_model_id model_id = model_id → s.cache model_id = none ∨
      s.env_overrides sid = none ∧ preset_table model_id sid = none) :
    (t.load_speaker_map model_id).map Prod.fst = t.build (canonical_model_id model_id) := by
  obtain ⟨d, hread, rfl⟩ := unregister_spec hunregister
  obtain ⟨hshows, hkept⟩ := read_spec hread hspelled
  refine load_value fun table hcache => ?_
  have hbuild : (s.forget d model_id sid).build (canonical_model_id model_id) =
      .ok (layered s.env_overrides (remove d model_id sid) (canonical_model_id model_id)) :=
    build_written rfl hkept.remove _
  rw [hbuild]
  rw [Registry.forget] at hcache
  dsimp only at hcache
  by_cases hmodel : canonical_model_id model_id = model_id
  · rw [hmodel, Function.update_self] at hcache
    obtain ⟨old, hold, rfl⟩ := Option.map_eq_some_iff.1 hcache
    have hfresh := hs model_id old hold
    rw [s.build_eq model_id hshows hkept] at hfresh
    obtain rfl := Except.ok.inj hfresh
    obtain ⟨henv, hpreset⟩ := (hbeneath hmodel).resolve_left (by rw [hold]; nofun)
    rw [hmodel]
    refine congrArg Except.ok (funext fun i => ?_)
    rw [layered, layer_remove]
    by_cases hi : i = sid
    · rw [if_pos ⟨rfl, hi⟩, hi, henv, hpreset, Function.update_self]
      rfl
    · rw [if_neg fun h => hi h.2, Function.update_of_ne hi]
      rfl
  · rw [Function.update_of_ne hmodel] at hcache
    have hfresh := hs _ table hcache
    rw [s.build_eq _ hshows hkept] at hfresh
    rw [← hfresh]
    refine congrArg Except.ok (funext fun i => ?_)
    rw [layered, layered, layer_remove, if_neg fun h => hmodel h.1]

/-- For every file, environment and coherent cache: a record registered under a canonical model id,
    with an id that no override and no selector alias has, is what lookups return from then on, and
    nothing else changes; after a removal a table is the one that would be built, unless it was
    cached and its id has a preset or an override. -/
theorem registration_read_back {s : Registry} (hs : s.Coherent) (hspelled : s.file.Spelled) :
    (∀ r created spec t, s.register_speaker r created = .ok (spec, t) →
      canonical_model_id r.model_id = r.model_id → s.env_overrides spec.id = none →
      (∀ i, selector_alias_id i r.model_id = spec.id ↔ i = spec.id) → ReadBack s t r spec) ∧
    ∀ model_id sid t, s.unregister_speaker model_id sid = .ok (true, t) →
      (canonical_model_id model_id = model_id → s.cache model_id = none ∨
        s.env_overrides sid = none ∧ preset_table model_id sid = none) →
      (t.load_speaker_map model_id).map Prod.fst = t.build (canonical_model_id model_id) :=
  ⟨fun _ _ _ _ => register_reads_back hs hspelled, fun _ _ _ => unregister_reads_back hs hspelled⟩

/-! ### A voice that is registered and removed -/

/-- One sample of an embedding, for the next free id or for the one that is asked for. -/
def one_sample (speaker_id : Option ℤ) : Registration :=
  ⟨"qwen3-tts", "AACAPw==", "Anna", none, speaker_id⟩

/-- No file yet, nothing cached. -/
def no_file (env_overrides : Table) : Registry := ⟨.missing, fun _ => none, env_overrides, true⟩

theorem no_file_spelled (env_overrides : Table) : (no_file env_overrides).file.Spelled := by
  intro d _ _ _ hd
  cases hd

theorem no_file_coherent (env_overrides : Table) : (no_file env_overrides).Coherent := by
  intro _ _ hcache
  cases hcache

/-- The file with the voice as its only entry, before anybody looked it up. -/
def anna_kept : Registry where
  file := .data (Dict.empty.set "qwen3-tts" (some (Dict.empty.set "10000"
    (entry_of ((one_sample none).spec "now" 10000)))))
  cache _ := none
  env_overrides _ := none
  allow_unmapped := true

theorem anna_spelled : anna_kept.file.Spelled := by
  intro d model_id table key hd hget hkey sid hsid
  obtain rfl := SpeakersFile.data.inj hd
  rw [Dict.get?_set] at hget
  split at hget
  · obtain rfl := Option.some.inj (Option.some.inj hget)
    obtain rfl : key = "10000" := by simpa [Dict.keys, Dict.set, Dict.setItems, Dict.empty] using hkey
    have hten : PyText.int "10000" = some 10000 := rfl
    obtain rfl : 10000 = sid := Option.some.inj (hten.symm.trans hsid)
    rfl
  · cases hget

theorem registration_read_back_anna :
    (∃ t, (no_file fun _ => none).register_speaker (one_sample none) "now" =
        .ok ((one_sample none).spec "now" 10000, t) ∧
      ReadBack (no_file fun _ => none) t (one_sample none) ((one_sample none).spec "now" 10000)) ∧
    ∃ t, anna_kept.unregister_speaker "qwen3-tts" 10000 = .ok (true, t) ∧
      (t.load_speaker_map "qwen3-tts").map Prod.fst = t.build (canonical_model_id "qwen3-tts") := by
  constructor
  · refine ⟨_, rfl, ?_⟩
    exact (registration_read_back (no_file_coherent _) (no_file_spelled _)).1 _ "now" _ _ rfl
      (by decide) rfl fun i => Iff.rfl
  · refine ⟨_, rfl, ?_⟩
    exact (registration_read_back (s := anna_kept) nofun anna_spelled).2 _ 10000 _ rfl
      fun _ => .inl rfl

/-- The operator's record for the id lies over the file. -/
def overridden : Table := fun sid => if sid = 10000 then some (preset 10000 "Bob" "bob") else none

/-- An override hides the record that is registered under its id. -/
theorem override_hides_registration : ¬ ∀ (s : Registry) (r : Registration) (created : String)
    (spec : SpeakerSpec) (t : Registry), s.Coherent → s.file.Spelled →
    canonical_model_id r.model_id = r.model_id → s.register_speaker r created = .ok (spec, t) →
    ReadBack s t r spec := by
  intro hall
  have hread := hall (no_file overridden) (one_sample (some 10000)) "now" _ _ (no_file_coherent _)
    (no_file_spelled _) (by decide) rfl
  obtain ⟨table, hload, hid⟩ := hread.loaded
  rw [load_value fun table hcache => by cases hcache] at hload
  have hbob : table 10000 = some (preset 10000 "Bob" "bob") := build_override hload rfl
  exact absurd (hbob.symm.trans hid) (by simp [preset, Registration.spec])

end LocalVoice.TTSSpeakers
