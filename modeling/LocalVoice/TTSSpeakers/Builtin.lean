import LocalVoice.TTSSpeakers.Visible

/-! The built-in voices under calls in any order. A removal only finds what the file has, and the
    file has no built-in id as long as the guard of `register_speaker` turns such ids away; it knows
    presets when it sees them, and takes an intrinsic voice for a registered one. -/

namespace LocalVoice.TTSSpeakers
open LocalVoice.Lib

/-! ### Calls -/

/-- The calls of a process on the registry; a lookup may fill the cache. -/
inductive Call where
  | register (r : Registration) (created : String)
  | unregister (model_id : String) (speaker_id : ℤ)
  | lookup (model_id : String)

def Registry.looked_up (s : Registry) (model_id : String) : Registry :=
  match s.load_speaker_map model_id with
  | .ok p => p.2
  | .error _ => s

/-- What `register_speaker` raises behind the lookup of the speaker that has the id. -/
def Error.after_lookup : Error → Bool
  | .overwrite_preset _ _ | .unknown_speaker _ _ => true
  | _ => false

/-- The state a call leaves, also one that raises. -/
def Registry.call (s : Registry) : Call → Registry
  | .register r created =>
    match s.register_speaker r created with
    | .ok p => p.2
    | .error e => if e.after_lookup then s.looked_up r.model_id else s
  | .unregister model_id speaker_id =>
    match s.unregister_speaker model_id speaker_id with
    | .ok p => p.2
    | .error _ => s
  | .lookup model_id => s.looked_up model_id

/-- No entry of the file has the id of a built-in voice of its model. -/
def SpeakersFile.Plain (f : SpeakersFile) : Prop :=
  ∀ d model_id table key sid, f = .data d → d.get? model_id = some (some table) →
    key ∈ table.keys → PyText.int key = some sid → preset_table model_id sid = none

/-- A registration under the id of an intrinsic voice that no override names. -/
def Call.OnIntrinsic (env : Table) : Call → Prop
  | .register r _ => ∃ sid spec, r.speaker_id = some sid ∧
      preset_table r.model_id sid = some spec ∧ spec.type = .intrinsic ∧ env sid = none
  | _ => False

/-! ### The file -/

/-- Entries that all parse, with a built-in id only where an override lies over it. -/
def Sane (env : Table) (d : FileData) : Prop :=
  ∀ model_id value, d.get? model_id = some value → ∃ table, value = some table ∧
    ∀ key entry, table.get? key = some entry → ∃ sid spec, PyText.int key = some sid ∧
      parse_speaker_entry sid entry = .ok spec ∧ (env sid = none → preset_table model_id sid = none)

section
variable {env mapping out table : Table} {d : FileData} {f : SpeakersFile} {model_id : String}
  {sid : ℤ} {spec : SpeakerSpec}

/-- An id that no entry has keeps what it had. -/
theorem load_entries_keeps : ∀ {l : List (String × Entry)} {mapping : Table},
    load_entries l mapping = .ok out → (∀ p ∈ l, PyText.int p.1 ≠ some sid) →
      out sid = mapping sid
  | [], mapping, h, _ => by
    obtain rfl := Except.ok.inj h
    rfl
  | (key, entry) :: rest, mapping, h, hne => by
    rw [load_entries] at h
    split at h
    · cases h
    · next i hi =>
      split at h
      · cases h
      · next spec hspec =>
        have hother : i ≠ sid := by
          rintro rfl
          exact hne (key, entry) (List.mem_cons_self ..) hi
        have hrest := load_entries_keeps h fun p hp => hne p (List.mem_cons_of_mem _ hp)
        rw [hrest, Function.update_of_ne hother.symm]

theorem load_entries_ok : ∀ {l : List (String × Entry)} (mapping : Table),
    (∀ p ∈ l, ∃ sid spec, PyText.int p.1 = some sid ∧ parse_speaker_entry sid p.2 = .ok spec) →
      ∃ out, load_entries l mapping = .ok out
  | [], mapping, _ => ⟨mapping, rfl⟩
  | (key, entry) :: rest, mapping, h => by
    obtain ⟨i, spec, hi, hspec⟩ := h (key, entry) (List.mem_cons_self ..)
    obtain ⟨out, hout⟩ := load_entries_ok (Function.update mapping i (some spec))
      fun p hp => h p (List.mem_cons_of_mem _ hp)
    refine ⟨out, ?_⟩
    rw [load_entries, hi]
    simp only [hspec]
    exact hout

/-- What is loaded of a file without built-in ids leaves the built-in voices alone. -/
theorem load_plain (hplain : ∀ d table key, f = .data d → d.get? model_id = some (some table) →
      key ∈ table.keys → PyText.int key ≠ some sid)
    (h : load_file_speakers mapping model_id f = .ok out) : out sid = mapping sid := by
  cases f with
  | missing | unreadable | other_root =>
    obtain rfl := Except.ok.inj h
    rfl
  | undecodable => cases h
  | data d =>
    rw [load_file_speakers] at h
    split at h
    · obtain rfl := Except.ok.inj h
      rfl
    · cases h
    · next table hget =>
      refine load_entries_keeps h fun p hp => ?_
      exact hplain d table p.1 rfl hget (List.mem_map.2 ⟨p, hp, rfl⟩)

/-- A file that can be updated is loaded for every model. -/
theorem Sane.loads (hshows : f.Shows d) (hd : Sane env d) (mapping : Table) (model_id : String) :
    ∃ out, load_file_speakers mapping model_id f = .ok out := by
  rcases hshows with ⟨rfl, rfl⟩ | rfl
  · exact ⟨mapping, rfl⟩
  · cases hget : d.get? model_id with
    | none => exact ⟨mapping, by rw [load_file_speakers, hget]⟩
    | some value =>
      obtain ⟨table, rfl, hentries⟩ := hd model_id value hget
      obtain ⟨out, hout⟩ := load_entries_ok (l := table.items) mapping fun p hp => by
        obtain ⟨sid, spec, hsid, hspec, _⟩ := hentries p.1 p.2 (Dict.mem_items.1 hp)
        exact ⟨sid, spec, hsid, hspec⟩
      exact ⟨out, by rw [load_file_speakers, hget]; exact hout⟩

/-- What an update reads of a file without built-in ids. -/
theorem read_sane (env : Table) (h : read_speaker_file_for_update f = .ok d) (hplain : f.Plain) :
    f.Shows d ∧ Sane env d := by
  cases f with
  | missing =>
    obtain rfl := Except.ok.inj h
    refine ⟨.inl ⟨rfl, rfl⟩, fun _ _ hget => ?_⟩
    cases hget
  | unreadable | undecodable | other_root => cases h
  | data d' =>
    obtain ⟨_, hcheck, rfl⟩ := map_eq_ok.1 h
    refine ⟨.inr rfl, fun model_id value hget => ?_⟩
    have hmodel := forM_eq_ok.1 hcheck _ (Dict.mem_items.2 hget)
    cases value with
    | none => cases hmodel
    | some table =>
      refine ⟨table, rfl, fun key entry hentry => ?_⟩
      have hone := forM_eq_ok.1 hmodel _ (Dict.mem_items.2 hentry)
      rw [check_entry] at hone
      split at hone
      · cases hone
      · next sid hsid =>
        split at hone
        · cases hone
        · next spec hspec =>
          refine ⟨sid, spec, hsid, hspec, fun _ => ?_⟩
          exact hplain d' model_id table key sid rfl hget (Dict.mem_keys.2 ⟨entry, hentry⟩) hsid

/-- What an update reads of a file that an update has written. -/
theorem read_data {d' : FileData} (h : read_speaker_file_for_update (.data d) = .ok d') :
    d' = d := by
  obtain ⟨_, _, rfl⟩ := map_eq_ok.1 h
  rfl

theorem Sane.entry {key : String} {entry : Entry} (h : Sane env d)
    (hget : (model_table d model_id).get? key = some entry) :
    ∃ sid spec, PyText.int key = some sid ∧ parse_speaker_entry sid entry = .ok spec ∧
      (env sid = none → preset_table model_id sid = none) := by
  cases hmodel : d.get? model_id with
  | none =>
    rw [model_table_of_none hmodel] at hget
    cases hget
  | some value =>
    obtain ⟨table, rfl, hentries⟩ := h model_id value hmodel
    rw [model_table_of_get hmodel] at hget
    exact hentries key entry hget

theorem Sane.set {table : Dict String Entry} (h : Sane env d)
    (htable : ∀ key entry, table.get? key = some entry → ∃ sid spec, PyText.int key = some sid ∧
      parse_speaker_entry sid entry = .ok spec ∧ (env sid = none → preset_table model_id sid = none)) :
    Sane env (d.set model_id (some table)) := by
  intro other value hget
  rw [Dict.get?_set] at hget
  split at hget
  · next hother =>
    subst hother
    obtain rfl := Option.some.inj hget
    exact ⟨table, rfl, htable⟩
  · exact h other value hget

theorem Sane.sorted (h : Sane env d) : Sane env (sorted d) := by
  intro model_id value hget
  rw [TTSSpeakers.sorted, Dict.get?_sort_keys, Dict.get?_mapValues] at hget
  obtain ⟨value', hget', rfl⟩ := Option.map_eq_some_iff.1 hget
  obtain ⟨table, rfl, hentries⟩ := h model_id value' hget'
  refine ⟨table.sort_keys, rfl, fun key entry hentry => ?_⟩
  rw [Dict.get?_sort_keys] at hentry
  exact hentries key entry hentry

theorem Sane.put (h : Sane env d)
    (hparse : parse_speaker_entry spec.id (entry_of spec) = .ok spec)
    (hid : env spec.id = none → preset_table model_id spec.id = none) :
    Sane env (put d model_id spec) := by
  refine h.set fun key entry hget => ?_
  rw [Dict.get?_set] at hget
  split at hget
  · next hkey =>
    obtain rfl := Option.some.inj hget
    exact ⟨spec.id, spec, by rw [hkey, PyText.int_toString], hparse, hid⟩
  · exact h.entry hget

theorem Sane.remove (h : Sane env d) : Sane env (remove d model_id sid) := by
  rw [TTSSpeakers.remove]
  split
  · intro other value hget
    rw [Dict.get?_erase] at hget
    split at hget
    · cases hget
    · exact h other value hget
  · refine h.set fun key entry hget => ?_
    rw [Dict.get?_erase] at hget
    split at hget
    · cases hget
    · exact h.entry hget

end

/-! ### The built-in tables -/

section
variable {model_id : String} {sid : ℤ} {spec : SpeakerSpec}

theorem preset_table_some (h : preset_table model_id sid = some spec) :
    spec.id = sid ∧ ∃ p ∈ all_presets, p.1 = model_id ∧ spec ∈ p.2 := by
  have hmem := List.mem_of_find?_eq_some h
  have hid := List.find?_some h
  rw [presets] at hmem
  cases hlook : all_presets.lookup model_id with
  | none => simp [hlook] at hmem
  | some specs =>
    rw [hlook] at hmem
    obtain ⟨l, r, hl, _⟩ := List.lookup_eq_some_iff.1 hlook
    exact ⟨of_decide_eq_true hid, (model_id, specs), by rw [hl]; simp, rfl, hmem⟩

theorem canonical_builtin (h : preset_table model_id sid = some spec) :
    canonical_model_id model_id = model_id := by
  obtain ⟨_, p, hp, rfl, _⟩ := preset_table_some h
  have hall : ∀ p ∈ all_presets, canonical_model_id p.1 = p.1 := by decide +kernel
  exact hall p hp

theorem alias_builtin (h : preset_table model_id sid = some spec) :
    selector_alias_id sid model_id = sid := by
  obtain ⟨rfl, p, hp, rfl, hspec⟩ := preset_table_some h
  have hall : ∀ p ∈ all_presets, ∀ spec ∈ p.2, selector_alias_id spec.id p.1 = spec.id := by
    decide +kernel
  exact hall p hp spec hspec

/-- A built-in voice is no registered one. -/
theorem type_builtin (h : preset_table model_id sid = some spec) :
    spec.type = .preset ∨ spec.type = .intrinsic := by
  obtain ⟨_, p, hp, _, hspec⟩ := preset_table_some h
  have hall : ∀ p ∈ all_presets, ∀ spec ∈ p.2,
      spec.type = .preset ∨ spec.type = .intrinsic := by decide +kernel
  exact hall p hp spec hspec

end

/-! ### The invariant -/

/-- The built-in voices as they are after calls from `s`: the file is the one of the start or one
    that an update has written, and a cached table has every built-in voice that no override names. -/
structure Intact (s t : Registry) : Prop where
  env : t.env_overrides = s.env_overrides
  file : t.file = s.file ∨
    (∃ d, t.file = .data d ∧ Sane s.env_overrides d) ∧ ∀ m, ∃ b, s.build m = .ok b
  cached : ∀ m table, t.cache m = some table → (∃ b, s.build m = .ok b) ∧
    ∀ sid spec, preset_table m sid = some spec → s.env_overrides sid = none → table sid = some spec

section
variable {s t : Registry} {d : FileData} {model_id : String} {sid : ℤ} {spec : SpeakerSpec}
  {table : Table}

theorem Sane.build (hshows : t.file.Shows d) (hd : Sane t.env_overrides d) (model_id : String) :
    ∃ b, t.build model_id = .ok b := by
  obtain ⟨out, hout⟩ := hd.loads hshows (preset_table model_id) model_id
  exact ⟨_, by rw [Registry.build, hout]; rfl⟩

/-- A table that is built has the built-in voices, if the file has no entry under their ids. -/
theorem build_builtin (hplain : ∀ d table key, t.file = .data d →
      d.get? model_id = some (some table) → key ∈ table.keys → PyText.int key ≠ some sid)
    (h : t.build model_id = .ok table) (hpreset : preset_table model_id sid = some spec)
    (henv : t.env_overrides sid = none) : table sid = some spec := by
  obtain ⟨mapping, hload, rfl⟩ := map_eq_ok.1 h
  dsimp only
  rw [henv, Option.none_or, load_plain hplain hload, hpreset]

/-- Tables are built as at the start, and have the built-in voices. -/
theorem Intact.build (h : Intact s t) (hplain : s.file.Plain) (hb : t.build model_id = .ok table) :
    (∃ b, s.build model_id = .ok b) ∧ ∀ sid spec, preset_table model_id sid = some spec →
      s.env_overrides sid = none → table sid = some spec := by
  refine ⟨?_, fun sid spec hpreset henv => ?_⟩
  · rcases h.file with hfile | ⟨_, hall⟩
    · refine ⟨table, ?_⟩
      rw [← hb, Registry.build, Registry.build, hfile, h.env]
    · exact hall model_id
  · have henv' : t.env_overrides sid = none := by rw [h.env, henv]
    refine build_builtin (fun d table key hd hget hkey hint => ?_) hb hpreset henv'
    rcases h.file with hfile | ⟨⟨d', hd', hsane⟩, _⟩
    · have hnone := hplain d model_id table key sid (hfile ▸ hd) hget hkey hint
      rw [hpreset] at hnone
      cases hnone
    · obtain rfl := SpeakersFile.data.inj (hd'.symm.trans hd)
      obtain ⟨entry, hentry⟩ := Dict.mem_keys.1 hkey
      obtain ⟨table', htable, hentries⟩ := hsane model_id _ hget
      obtain rfl := Option.some.inj htable
      obtain ⟨sid', _, hsid, _, hnone⟩ := hentries key entry hentry
      obtain rfl := Option.some.inj (hsid.symm.trans hint)
      rw [hnone henv] at hpreset
      cases hpreset

/-- Where the start cannot build a table, nothing ever can. -/
theorem Intact.build_error (h : Intact s t) {e : Error} (hb : t.build model_id = .error e) :
    s.build model_id = .error e := by
  rcases h.file with hfile | ⟨⟨d, hd, hsane⟩, _⟩
  · rw [← hb, Registry.build, Registry.build, hfile, h.env]
  · obtain ⟨b, hok⟩ := Sane.build (t := t) (.inr hd) (h.env ▸ hsane) model_id
    rw [hok] at hb
    cases hb

/-- What an update reads. -/
theorem Intact.read (h : Intact s t) (hplain : s.file.Plain)
    (hread : read_speaker_file_for_update t.file = .ok d) :
    Sane s.env_overrides d ∧ ∀ m, ∃ b, s.build m = .ok b := by
  rcases h.file with hfile | ⟨⟨d', hd', hsane⟩, hall⟩
  · rw [hfile] at hread
    obtain ⟨hshows, hsane⟩ := read_sane s.env_overrides hread hplain
    exact ⟨hsane, fun m => Sane.build hshows hsane m⟩
  · rw [hd'] at hread
    obtain rfl := read_data hread
    exact ⟨hsane, hall⟩

/-! ### Calls keep it -/

theorem Registry.Coherent.intact (hs : s.Coherent) (hplain : s.file.Plain) : Intact s s := by
  refine ⟨rfl, .inl rfl, fun m table hcache => ?_⟩
  have hbuild := hs m table hcache
  refine ⟨⟨table, hbuild⟩, fun sid spec hpreset henv => ?_⟩
  refine build_builtin (fun d table key hd hget hkey hint => ?_) hbuild hpreset henv
  rw [hplain d m table key sid hd hget hkey hint] at hpreset
  cases hpreset

theorem Intact.load (h : Intact s t) (hplain : s.file.Plain) {t' : Registry}
    (hload : t.load_speaker_map model_id = .ok (table, t')) :
    Intact s t' ∧ ∀ sid spec, preset_table (canonical_model_id model_id) sid = some spec →
      s.env_overrides sid = none → table sid = some spec := by
  rw [Registry.load_speaker_map] at hload
  split at hload
  · next hcache =>
    obtain ⟨rfl, rfl⟩ := Prod.mk.inj (Except.ok.inj hload)
    exact ⟨h, (h.cached _ _ hcache).2⟩
  · obtain ⟨built, hbuilt, heq⟩ := map_eq_ok.1 hload
    obtain ⟨rfl, rfl⟩ := Prod.mk.inj heq
    obtain ⟨hstart, hall⟩ := h.build hplain hbuilt
    refine ⟨⟨h.env, h.file, fun m table' hcache => ?_⟩, hall⟩
    dsimp only at hcache
    by_cases hm : m = canonical_model_id model_id
    · subst hm
      rw [Function.update_self] at hcache
      obtain rfl := Option.some.inj hcache
      exact ⟨hstart, hall⟩
    · rw [Function.update_of_ne hm] at hcache
      exact h.cached m table' hcache

theorem Intact.looked_up (h : Intact s t) (hplain : s.file.Plain) (model_id : String) :
    Intact s (t.looked_up model_id) := by
  rw [Registry.looked_up]
  split
  · next p hload =>
    obtain ⟨table, t'⟩ := p
    exact (h.load hplain hload).1
  · exact h

/-- The id a registration takes has no built-in voice that no override names. -/
theorem Intact.choose (h : Intact s t) (hplain : s.file.Plain) {r : Registration} {created : String}
    {t' : Registry} {id : ℤ} (hcall : ¬ (Call.register r created).OnIntrinsic s.env_overrides)
    (hid : t.choose_id d r.model_id r.speaker_id = .ok (id, t')) :
    Intact s t' ∧ (s.env_overrides id = none → preset_table r.model_id id = none) := by
  -- an id that is not among the existing ones is not built in
  have hfree : id ∉ existing_ids d r.model_id → preset_table r.model_id id = none := by
    intro hnot
    rw [existing_ids, List.mem_append, not_or] at hnot
    refine List.find?_eq_none.2 fun spec hspec hsid => hnot.1 (List.mem_map.2 ⟨spec, hspec, ?_⟩)
    exact of_decide_eq_true hsid
  cases hspeaker : r.speaker_id with
  | none =>
    rw [hspeaker] at hid
    obtain ⟨hid, rfl⟩ := Prod.mk.inj (Except.ok.inj hid)
    refine ⟨h, fun _ => hfree fun hmem => ?_⟩
    have hle := le_max_of hmem
    omega
  | some sid =>
    rw [hspeaker, Registry.choose_id] at hid
    split at hid
    · obtain ⟨⟨found, t''⟩, hlook, hrest⟩ := bind_eq_ok.1 hid
      split at hrest
      · cases hrest
      · next hguard =>
        obtain ⟨rfl, rfl⟩ := Prod.mk.inj (Except.ok.inj hrest)
        obtain ⟨⟨table, t₁⟩, hload, hanswer⟩ := bind_eq_ok.1 hlook
        dsimp only at hanswer hguard
        obtain ⟨found', hfound, heq⟩ := map_eq_ok.1 hanswer
        obtain ⟨rfl, rfl⟩ := Prod.mk.inj heq
        obtain ⟨ht₁, hbuiltin⟩ := h.load hplain hload
        refine ⟨ht₁, fun henv => Option.eq_none_iff_forall_ne_some.2 fun spec hpreset => ?_⟩
        have hcanonical := canonical_builtin hpreset
        rw [canonical_idem, hcanonical] at hbuiltin
        rw [hcanonical] at hfound
        rw [alias_builtin hpreset, hbuiltin sid spec hpreset henv] at hfound
        obtain rfl := Except.ok.inj hfound
        rcases type_builtin hpreset with htype | htype
        · exact hguard (by simp [htype])
        · exact hcall ⟨sid, spec, hspeaker, hpreset, htype, henv⟩
    · next hnot =>
      obtain ⟨rfl, rfl⟩ := Prod.mk.inj (Except.ok.inj hid)
      exact ⟨h, fun _ => hfree hnot⟩

theorem Intact.register (h : Intact s t) (hplain : s.file.Plain) {r : Registration}
    {created : String} {p : SpeakerSpec × Registry}
    (hcall : ¬ (Call.register r created).OnIntrinsic s.env_overrides)
    (hregister : t.register_speaker r created = .ok p) : Intact s p.2 := by
  obtain ⟨spec, t'⟩ := p
  obtain ⟨d, t₁, hread, hid, htype, _, hne, rfl⟩ := register_spec hregister
  obtain ⟨hsane, hall⟩ := h.read hplain hread
  obtain ⟨ht₁, hfree⟩ := h.choose hplain hcall hid
  have hput := (hsane.put (parse_entry_of htype hne) hfree).sorted
  refine ⟨ht₁.env, .inr ⟨⟨_, rfl, hput⟩, hall⟩, fun m table hcache => ?_⟩
  rw [Registry.publish] at hcache
  dsimp only at hcache
  by_cases hm : m = r.model_id
  · rw [hm, Function.update_self] at hcache
    cases hcache
  · rw [Function.update_of_ne hm] at hcache
    exact ht₁.cached m table hcache

theorem Intact.unregister (h : Intact s t) (hplain : s.file.Plain) {p : Bool × Registry}
    (hunregister : t.unregister_speaker model_id sid = .ok p) : Intact s p.2 := by
  obtain ⟨d, hread, hrest⟩ := bind_eq_ok.1 hunregister
  obtain ⟨hsane, hall⟩ := h.read hplain hread
  split at hrest
  · next entry hentry =>
    obtain ⟨spec, _, hrest⟩ := bind_eq_ok.1 hrest
    split at hrest
    · cases hrest
    · obtain rfl := Except.ok.inj hrest
      -- the id is one of the file, so it is not built in
      obtain ⟨sid', _, hsid, _, hfree⟩ := hsane.entry hentry
      rw [PyText.int_toString] at hsid
      obtain rfl := Option.some.inj hsid
      refine ⟨h.env, .inr ⟨⟨_, rfl, hsane.remove.sorted⟩, hall⟩, fun m table hcache => ?_⟩
      rw [Registry.forget] at hcache
      dsimp only at hcache
      by_cases hm : m = model_id
      · subst hm
        rw [Function.update_self] at hcache
        obtain ⟨old, hold, rfl⟩ := Option.map_eq_some_iff.1 hcache
        refine ⟨(h.cached m old hold).1, fun i spec hpreset henv => ?_⟩
        rw [Function.update_of_ne, (h.cached m old hold).2 i spec hpreset henv]
        rintro rfl
        rw [hfree henv] at hpreset
        cases hpreset
      · rw [Function.update_of_ne hm] at hcache
        exact h.cached m table hcache
  · split at hrest
    · cases hrest
    · obtain rfl := Except.ok.inj hrest
      exact h

theorem Intact.call (h : Intact s t) (hplain : s.file.Plain) {call : Call}
    (hcall : ¬ call.OnIntrinsic s.env_overrides) : Intact s (t.call call) := by
  cases call with
  | register r created =>
    rw [Registry.call]
    split
    · next hregister => exact h.register hplain hcall hregister
    · split
      · exact h.looked_up hplain r.model_id
      · exact h
  | unregister model_id sid =>
    rw [Registry.call]
    split
    · next hunregister => exact h.unregister hplain hunregister
    · exact h
  | lookup model_id => exact h.looked_up hplain model_id

theorem Intact.calls (h : Intact s t) (hplain : s.file.Plain) {calls : List Call}
    (hcalls : ∀ call ∈ calls, ¬ call.OnIntrinsic s.env_overrides) :
    Intact s (calls.foldl Registry.call t) := by
  induction calls generalizing t with
  | nil => exact h
  | cons call rest ih =>
    exact ih (h.call hplain (hcalls call (List.mem_cons_self ..)))
      fun c hc => hcalls c (List.mem_cons_of_mem _ hc)

/-- A built-in voice is what its id resolves to, where the start could build a table. -/
theorem Intact.resolves (h : Intact s t) (hplain : s.file.Plain)
    (hpreset : preset_table (canonical_model_id model_id) sid = some spec)
    (henv : s.env_overrides sid = none) :
    (t.speaker_spec_for_id (some sid) model_id).map Prod.fst =
      (s.build (canonical_model_id model_id)).map fun _ => some spec := by
  rw [Registry.speaker_spec_for_id]
  cases hload : t.load_speaker_map (canonical_model_id model_id) with
  | error e =>
    rw [Registry.load_speaker_map, canonical_idem] at hload
    split at hload
    · cases hload
    · have hbuild : t.build (canonical_model_id model_id) = .error e := by
        cases hb : t.build (canonical_model_id model_id) with
        | error e' =>
          rw [hb] at hload
          exact congrArg _ (Except.error.inj hload)
        | ok b =>
          rw [hb] at hload
          cases hload
      rw [h.build_error hbuild]
      rfl
  | ok p =>
    obtain ⟨table, t'⟩ := p
    have hall := (h.load hplain hload).2
    rw [canonical_idem] at hall
    obtain ⟨b, hb⟩ : ∃ b, s.build (canonical_model_id model_id) = .ok b := by
      rw [Registry.load_speaker_map, canonical_idem] at hload
      split at hload
      · next hcache => exact (h.cached _ _ hcache).1
      · obtain ⟨built, hbuilt, _⟩ := map_eq_ok.1 hload
        exact (h.build hplain hbuilt).1
    have hfound := hall sid spec hpreset henv
    have halias : selector_alias_id sid (canonical_model_id model_id) = sid := alias_builtin hpreset
    rw [hb]
    simp only [Except.bind]
    rw [halias, hfound]
    rfl

end

/-- For every start with a coherent cache and a file without built-in ids: after any calls of which
    none registers under the id of an intrinsic voice, every built-in voice that no override names is
    what its id resolves to, in every model whose table could be built at the start. -/
theorem builtin_voices_kept {s : Registry} (hs : s.Coherent) (hplain : s.file.Plain)
    {calls : List Call} (hcalls : ∀ call ∈ calls, ¬ call.OnIntrinsic s.env_overrides)
    (model_id : String) (sid : ℤ) (spec : SpeakerSpec)
    (hbuiltin : preset_table (canonical_model_id model_id) sid = some spec)
    (henv : s.env_overrides sid = none) :
    ((calls.foldl Registry.call s).speaker_spec_for_id (some sid) model_id).map Prod.fst =
      (s.build (canonical_model_id model_id)).map fun _ => some spec :=
  ((hs.intact hplain).calls hplain hcalls).resolves hplain hbuiltin henv

/-! ### The reference voice of a base model -/

/-- One sample of an embedding, under an id that a voice of the model has. -/
def sample_for (model_id : String) (speaker_id : ℤ) : Registration :=
  ⟨model_id, "AACAPw==", "Anna", none, some speaker_id⟩

theorem no_file_plain (env_overrides : Table) : (no_file env_overrides).file.Plain := by
  intro d _ _ _ _ hd
  cases hd

/-- The guard turns away the id of a preset; the removal of a built-in voice is refused too. -/
theorem builtin_voices_kept_female :
    (([Call.register (sample_for "qwen3-tts" 2301) "now", .unregister "qwen3-tts" 2301,
        .register (sample_for "qwen3-tts" 7) "now"].foldl Registry.call
        (no_file fun _ => none)).speaker_spec_for_id (some 2301) " qwen3-tts").map Prod.fst =
      ((no_file fun _ => none).build (canonical_model_id " qwen3-tts")).map fun _ =>
        some (preset 2301 "Female 1" "2301") := by
  refine builtin_voices_kept (no_file_coherent _) (no_file_plain _) (fun call hcall => ?_)
    " qwen3-tts" 2301 _ rfl rfl
  have hnone : (presets "qwen3-tts").all (·.type ≠ .intrinsic) = true := by decide +kernel
  have hkeep : ∀ sid spec, preset_table "qwen3-tts" sid = some spec → spec.type ≠ .intrinsic :=
    fun sid spec h => of_decide_eq_true (List.all_eq_true.1 hnone spec (List.mem_of_find?_eq_some h))
  simp only [List.mem_cons, List.not_mem_nil, or_false] at hcall
  rcases hcall with rfl | rfl | rfl
  · rintro ⟨sid, spec, _, hpreset, htype, _⟩
    exact hkeep sid spec hpreset htype
  · rintro ⟨⟩
  · rintro ⟨sid, spec, _, hpreset, htype, _⟩
    exact hkeep sid spec hpreset htype

/-- A registration takes the id of the reference voice of a base model. -/
theorem intrinsic_voice_overwritten : ¬ ∀ (s : Registry) (calls : List Call), s.Coherent →
    s.file.Plain → ∀ model_id sid spec, preset_table (canonical_model_id model_id) sid = some spec →
      s.env_overrides sid = none →
      ((calls.foldl Registry.call s).speaker_spec_for_id (some sid) model_id).map Prod.fst =
        (s.build (canonical_model_id model_id)).map fun _ => some spec := by
  intro hall
  have hkept := hall (no_file fun _ => none)
    [.register (sample_for "qwen3-tts-0.6b-base" 0) "now"] (no_file_coherent _) (no_file_plain _)
    "qwen3-tts-0.6b-base" 0 (intrinsic "Default reference voice") rfl rfl
  have htype := congrArg (fun r => r.toOption.map fun spec => spec.map (·.type)) hkept
  revert htype
  decide +kernel

end LocalVoice.TTSSpeakers
