import LocalVoice.Lib.Each
import LocalVoice.TTSSpeakers.Registry

/-! What a table is built from, one speaker id at a time. In a file that spells its ids as `str` does
    the entry under `str(id)` is all there is of an id, so what a registration or a removal changes
    of a table is one layer at one id. -/

namespace LocalVoice.TTSSpeakers
open LocalVoice.Lib

/-- Every id is spelled as the registry writes it. -/
def SpeakersFile.Spelled (f : SpeakersFile) : Prop :=
  ∀ d model_id table key, f = .data d → d.get? model_id = some (some table) → key ∈ table.keys →
    ∀ sid, PyText.int key = some sid → key = toString sid

/-- The data an update starts from. -/
def SpeakersFile.Shows (f : SpeakersFile) (d : FileData) : Prop :=
  f = .missing ∧ d = Dict.empty ∨ f = .data d

/-- Tables whose entries all parse, each under its `str(id)`. -/
def WellKept (d : FileData) : Prop :=
  ∀ model_id value, d.get? model_id = some value → ∃ table, value = some table ∧
    ∀ key entry, table.get? key = some entry →
      ∃ sid spec, key = toString sid ∧ parse_speaker_entry sid entry = .ok spec

/-- The file's layer of a model's table. -/
def layer (table : Dict String Entry) (sid : ℤ) : Option SpeakerSpec :=
  (table.get? (toString sid)).bind fun entry => (parse_speaker_entry sid entry).toOption

/-- Presets, file and environment, the last one on top. -/
def layered (env : Table) (d : FileData) (model_id : String) : Table := fun sid =>
  (env sid).or ((layer (model_table d model_id) sid).or (preset_table model_id sid))

/-- The data with its keys sorted. -/
def sorted (d : FileData) : FileData := (d.mapValues (Option.map Dict.sort_keys)).sort_keys

theorem toString_inj {i j : ℤ} (h : toString i = toString j) : i = j := by
  have hi := PyText.int_toString i
  rw [h, PyText.int_toString] at hi
  exact (Option.some.inj hi).symm

/-! ### Reading -/

/-- The loop over entries that parse, each under its `str(id)`. -/
theorem load_entries_eq (mapping : Table) : ∀ {l : List (String × Entry)},
    (l.map Prod.fst).Nodup →
    (∀ p ∈ l, ∃ sid spec, p.1 = toString sid ∧ parse_speaker_entry sid p.2 = .ok spec) →
    load_entries l mapping = .ok fun i =>
      ((l.lookup (toString i)).bind fun entry => (parse_speaker_entry i entry).toOption).or (mapping i)
  | [], _, _ => rfl
  | (key, entry) :: rest, hnodup, hkept => by
    obtain ⟨sid, spec, rfl, hspec⟩ := hkept (key, entry) (List.mem_cons_self ..)
    rw [List.map_cons, List.nodup_cons] at hnodup
    have hrest := load_entries_eq (Function.update mapping sid (some spec)) hnodup.2
      fun p hp => hkept p (List.mem_cons_of_mem _ hp)
    rw [load_entries, PyText.int_toString]
    simp only [hspec]
    rw [hrest]
    congr 1
    funext i
    rw [Dict.lookup_cons_ite]
    by_cases hi : i = sid
    · subst hi
      have hnone : rest.lookup (toString i) = none := by
        rw [← Option.not_isSome_iff_eq_none, Dict.lookup_isSome]
        exact hnodup.1
      rw [hnone, if_pos rfl, Option.bind_none, Option.none_or, Option.bind_some, hspec,
        Function.update_self]
      rfl
    · rw [if_neg fun h => hi (toString_inj h), Function.update_of_ne hi]

theorem model_table_of_get {d : FileData} {model_id : String} {table : Dict String Entry}
    (h : d.get? model_id = some (some table)) : model_table d model_id = table := by
  rw [model_table, h]
  rfl

theorem model_table_of_none {d : FileData} {model_id : String} (h : d.get? model_id = none) :
    model_table d model_id = Dict.empty := by
  rw [model_table, h]
  rfl

theorem load_file_speakers_eq {f : SpeakersFile} {d : FileData} (mapping : Table)
    (model_id : String) (hshows : f.Shows d) (hkept : WellKept d) :
    load_file_speakers mapping model_id f =
      .ok fun i => (layer (model_table d model_id) i).or (mapping i) := by
  rcases hshows with ⟨rfl, rfl⟩ | rfl
  · rfl
  · cases hget : d.get? model_id with
    | none =>
      rw [load_file_speakers, hget, model_table_of_none hget]
      rfl
    | some value =>
      obtain ⟨table, rfl, hentries⟩ := hkept model_id value hget
      rw [load_file_speakers, hget, model_table_of_get hget]
      refine load_entries_eq mapping table.nodup fun p hp => ?_
      exact hentries p.1 p.2 (Dict.mem_items.1 hp)

/-- What an update reads. -/
theorem read_spec {f : SpeakersFile} {d : FileData} (h : read_speaker_file_for_update f = .ok d)
    (hspelled : f.Spelled) : f.Shows d ∧ WellKept d := by
  cases f with
  | missing =>
    obtain rfl := Except.ok.inj h
    exact ⟨.inl ⟨rfl, rfl⟩, fun _ _ hget => absurd hget nofun⟩
  | unreadable | undecodable | other_root => cases h
  | data d' =>
    obtain ⟨_, hcheck, rfl⟩ := map_eq_ok.1 h
    refine ⟨.inr rfl, fun model_id value hget => ?_⟩
    have hmodel := forM_eq_ok.1 hcheck _ (Dict.mem_items.2 hget)
    cases value with
    | none => cases hmodel
    | some table =>
      refine ⟨table, rfl, fun key entry hentry => ?_⟩
      have hone := forM_eq_ok.1 hmodel _ (Dict.mem_items.2 hentry)
      rw [check_entry] at hone
      split at hone
      · cases hone
      · next sid hsid =>
        split at hone
        · cases hone
        · next spec hspec =>
          have hkey := hspelled d' model_id table key rfl hget (Dict.mem_keys.2 ⟨entry, hentry⟩)
          exact ⟨sid, spec, hkey sid hsid, hspec⟩

theorem Registry.build_eq {s : Registry} {d : FileData} (model_id : String)
    (hshows : s.file.Shows d) (hkept : WellKept d) :
    s.build model_id = .ok (layered s.env_overrides d model_id) := by
  rw [build, load_file_speakers_eq _ _ hshows hkept]
  rfl

/-! ### Writing -/

theorem model_table_sorted (d : FileData) (model_id key : String) :
    (model_table (sorted d) model_id).get? key = (model_table d model_id).get? key := by
  rw [model_table, model_table, sorted, Dict.get?_sort_keys, Dict.get?_mapValues]
  cases d.get? model_id with
  | none => rfl
  | some value =>
    cases value with
    | none => rfl
    | some table => exact Dict.get?_sort_keys table key

theorem layer_sorted (d : FileData) (model_id : String) :
    layer (model_table (sorted d) model_id) = layer (model_table d model_id) := by
  funext sid
  rw [layer, layer, model_table_sorted]

theorem layered_sorted (env : Table) (d : FileData) (model_id : String) :
    layered env (sorted d) model_id = layered env d model_id := by
  funext sid
  rw [layered, layered, layer_sorted]

theorem WellKept.sorted {d : FileData} (h : WellKept d) : WellKept (sorted d) := by
  intro model_id value hget
  rw [TTSSpeakers.sorted, Dict.get?_sort_keys, Dict.get?_mapValues] at hget
  obtain ⟨value', hget', rfl⟩ := Option.map_eq_some_iff.1 hget
  obtain ⟨table, rfl, hentries⟩ := h model_id value' hget'
  refine ⟨table.sort_keys, rfl, fun key entry hentry => ?_⟩
  rw [Dict.get?_sort_keys] at hentry
  exact hentries key entry hentry

/-- What the registry writes is spelled as it writes it. -/
theorem WellKept.spelled {d : FileData} (h : WellKept d) : (SpeakersFile.data d).Spelled := by
  intro d' model_id table key hd hget hkey sid hsid
  obtain rfl := SpeakersFile.data.inj hd
  obtain ⟨table', htable, hentries⟩ := h model_id (some table) hget
  obtain rfl := Option.some.inj htable
  obtain ⟨entry, hentry⟩ := Dict.mem_keys.1 hkey
  obtain ⟨sid', _, rfl, _⟩ := hentries key entry hentry
  rw [PyText.int_toString] at hsid
  rw [Option.some.inj hsid]

theorem WellKept.entry {d : FileData} {model_id key : String} {entry : Entry} (h : WellKept d)
    (hget : (model_table d model_id).get? key = some entry) :
    ∃ sid spec, key = toString sid ∧ parse_speaker_entry sid entry = .ok spec := by
  cases hmodel : d.get? model_id with
  | none =>
    rw [model_table_of_none hmodel] at hget
    cases hget
  | some value =>
    obtain ⟨table, rfl, hentries⟩ := h model_id value hmodel
    rw [model_table_of_get hmodel] at hget
    exact hentries key entry hget

/-- A model's table is replaced. -/
theorem WellKept.set {d : FileData} {model_id : String} {table : Dict String Entry}
    (h : WellKept d) (htable : ∀ key entry, table.get? key = some entry →
      ∃ sid spec, key = toString sid ∧ parse_speaker_entry sid entry = .ok spec) :
    WellKept (d.set model_id (some table)) := by
  intro other value hget
  rw [Dict.get?_set] at hget
  split at hget
  · obtain rfl := Option.some.inj hget
    exact ⟨table, rfl, htable⟩
  · exact h other value hget

theorem model_table_set (d : FileData) (model_id other : String) (table : Dict String Entry) :
    model_table (d.set model_id (some table)) other =
      if other = model_id then table else model_table d other := by
  rw [model_table, Dict.get?_set]
  split <;> rfl

/-- The record that is written is the one that is read back. -/
theorem parse_entry_of {spec : SpeakerSpec} (htype : spec.type = .embedding)
    (hpayload : spec.payload ≠ "") : parse_speaker_entry spec.id (entry_of spec) = .ok spec := by
  have hlower : PyText.lower (PyText.strip "embedding") = "embedding" := by decide
  obtain ⟨id, type, label, payload, info⟩ := spec
  obtain rfl : type = .embedding := htype
  have hne : payload ≠ "" := hpayload
  simp [entry_of, parse_speaker_entry, Fields.entry_type, Fields.embedding_payload, truthy_or,
    field_or_name, Json.toStr, Json.truthy, hlower, hne]

theorem layer_put {d : FileData} {model_id : String} {spec : SpeakerSpec}
    (hparse : parse_speaker_entry spec.id (entry_of spec) = .ok spec) (other : String) (sid : ℤ) :
    layer (model_table (put d model_id spec) other) sid =
      if other = model_id ∧ sid = spec.id then some spec else layer (model_table d other) sid := by
  rw [put, model_table_set]
  by_cases hother : other = model_id
  · rw [if_pos hother, layer, Dict.get?_set]
    by_cases hsid : sid = spec.id
    · rw [if_pos (congrArg _ hsid), if_pos ⟨hother, hsid⟩, Option.bind_some, hsid, hparse]
      rfl
    · rw [if_neg fun h => hsid (toString_inj h), if_neg fun h => hsid h.2, hother]
      rfl
  · rw [if_neg hother, if_neg fun h => hother h.1]

theorem WellKept.put {d : FileData} {model_id : String} {spec : SpeakerSpec} (h : WellKept d)
    (hparse : parse_speaker_entry spec.id (entry_of spec) = .ok spec) :
    WellKept (put d model_id spec) := by
  refine h.set fun key entry hget => ?_
  rw [Dict.get?_set] at hget
  split at hget
  · next hkey =>
    obtain rfl := Option.some.inj hget
    exact ⟨spec.id, spec, hkey, hparse⟩
  · exact h.entry hget

theorem get?_of_items_nil {table : Dict String Entry} (h : table.items = []) (key : String) :
    table.get? key = none := by
  rw [Dict.get?, h]
  rfl

theorem layer_remove {d : FileData} {model_id : String} {sid : ℤ} (other : String) (i : ℤ) :
    layer (model_table (remove d model_id sid) other) i =
      if other = model_id ∧ i = sid then none else layer (model_table d other) i := by
  have hkeys : ∀ key, (model_table (remove d model_id sid) other).get? key =
      if other = model_id ∧ key = toString sid then none else (model_table d other).get? key := by
    intro key
    have herase := Dict.get?_erase (model_table d model_id) (toString sid) key
    rw [remove]
    split
    · next hempty =>
      rw [get?_of_items_nil hempty] at herase
      rw [model_table, Dict.get?_erase]
      by_cases hother : other = model_id
      · subst hother
        by_cases hkey : key = toString sid
        · simp [hkey]
        · rw [if_neg hkey] at herase
          simp [← herase]
      · simp [hother, model_table]
    · rw [model_table_set]
      by_cases hother : other = model_id
      · subst hother
        rw [if_pos rfl, herase]
        simp
      · simp [hother]
  rw [layer, hkeys]
  by_cases h : other = model_id ∧ i = sid
  · rw [if_pos ⟨h.1, congrArg _ h.2⟩, if_pos h]
    rfl
  · rw [if_neg fun h' => h ⟨h'.1, toString_inj h'.2⟩, if_neg h]
    rfl

theorem WellKept.remove {d : FileData} {model_id : String} {sid : ℤ} (h : WellKept d) :
    WellKept (remove d model_id sid) := by
  rw [TTSSpeakers.remove]
  split
  · intro other value hget
    rw [Dict.get?_erase] at hget
    split at hget
    · cases hget
    · exact h other value hget
  · refine h.set fun key entry hget => ?_
    rw [Dict.get?_erase] at hget
    split at hget
    · cases hget
    · exact h.entry hget

end LocalVoice.TTSSpeakers
