import LocalVoice.Lib.Each
import LocalVoice.ActionsManager.Save

/-! What the manager serialises it loads again: a frame, an entry in either shape, and the whole map.
    Nothing of an entry that it wrote is passed by. -/

namespace LocalVoice.ActionsManager
open LocalVoice.Lib

section
variable {F Bytes : Type} (env : Env F Bytes)

/-! ### Entries -/

@[simp] theorem as_dict_dict (items : List (Key × Yaml F)) :
    (Yaml.dict items).as_dict = some (Dict.empty.update items) := rfl

theorem Stripped.of_text (t : Stripped) : Stripped.of t.text = t := by
  obtain ⟨text, h⟩ := t
  simp [Stripped.of, h]

theorem Stripped.eq_empty {t : Stripped} (h : t.text = "") : t = .empty := by
  obtain ⟨text, ht⟩ := t
  subst h
  rfl

theorem floats_serialized (joints : Dict String F) :
    floats env (joints.items.map fun p => (.str p.1, .float p.2)) = .ok joints := by
  have h : (joints.items.map fun p => (Key.str p.1, Yaml.float p.2)).mapM
      (fun p => (float env p.2).map fun f => (p.1.text, f)) = .ok joints.items :=
    mapM_map_ok fun _ _ => rfl
  rw [floats, h]
  exact congrArg Except.ok (Dict.update_items joints)

theorem nodup_str {ν μ : Type} (d : Dict String ν) (g : ν → μ) :
    ((d.items.map fun p => (Key.str p.1, g p.2)).map Prod.fst).Nodup := by
  have h := d.nodup.map (f := Key.str) fun a b hab => by cases hab; rfl
  simpa [List.map_map, Function.comp_def] using h

/-- A serialised frame, as a dictionary. -/
theorem as_dict_serialized (f : Frame F) : ∃ d joints, (serialize_frame f).as_dict = some d ∧
    d.items = [(.str "joints", .dict joints), (.str "delay", .float f.delay)] ∧
    joints = f.joints.items.map fun p => (.str p.1, .float p.2) :=
  ⟨_, _, rfl, by simp [Dict.update, Dict.set, Dict.setItems, Dict.empty], rfl⟩

theorem coerce_frame_serialized (f : Frame F) :
    ∃ d, (serialize_frame f).as_dict = some d ∧ coerce_frame env d = .ok f := by
  obtain ⟨d, joints, hd, hitems, rfl⟩ := as_dict_serialized f
  refine ⟨d, hd, ?_⟩
  have hjoints : (Dict.empty.update (f.joints.items.map fun p => (Key.str p.1, Yaml.float p.2))).items =
      f.joints.items.map fun p => (.str p.1, .float p.2) :=
    Dict.items_update (nodup_str f.joints Yaml.float)
  simp only [coerce_frame, Dict.get?, hitems, Dict.lookup_cons_ite, if_true, Option.bind_some, Yaml.as_dict,
    hjoints, floats_serialized]
  rfl

/-- Nothing of a serialised frame is passed by. -/
theorem leftover_frame_serialized (f : Frame F) : leftover_frame (serialize_frame f) = [] := by
  obtain ⟨d, joints, hd, hitems, rfl⟩ := as_dict_serialized f
  rw [leftover_frame, hd]
  simp [Dict.get?, hitems]

theorem coerce_serialized (frames : List (Frame F)) :
    ((frames.map serialize_frame).filterMap Yaml.as_dict).mapM (coerce_frame env) = .ok frames := by
  induction frames with
  | nil => rfl
  | cons f rest ih =>
    obtain ⟨d, hd, hf⟩ := coerce_frame_serialized env f
    rw [List.map_cons, List.filterMap_cons_some hd, List.mapM_cons, hf, ih]
    rfl

theorem leftover_serialized (frames : List (Frame F)) :
    (frames.map serialize_frame).flatMap leftover_frame = [] := by
  simp [leftover_frame_serialized]

/-- A mapping that is written has no key twice. -/
theorem items_mapping (e : Entry F) : (Dict.empty.update (mapping e)).items = mapping e := by
  refine Dict.items_update ?_
  simp only [mapping, optional]
  split <;> split <;> split <;> simp [Dict.empty]

theorem lookup_optional (key key' : String) (t : Stripped) :
    (optional key t : List (Key × Yaml F)).lookup (.str key') =
      if key' = key ∧ t.text ≠ "" then some (.str t.text) else none := by
  by_cases ht : t.text = "" <;> by_cases hkey : key' = key <;>
    simp [optional, ht, hkey, Dict.lookup_cons_ite]

theorem get_mapping (e : Entry F) (key : String) : (Dict.empty.update (mapping e)).get? (.str key) =
    (((if key = "description" ∧ e.description.text ≠ "" then some (.str e.description.text) else none).or
      (if key = "response_mode" ∧ e.response_mode.text ≠ "" then some (.str e.response_mode.text)
        else none)).or
      (if key = "completion_text" ∧ e.completion_text.text ≠ "" then some (.str e.completion_text.text)
        else none)).or
      (if key = "frames" then some (.list (e.frames.map serialize_frame)) else none) := by
  rw [Dict.get?, items_mapping]
  simp [mapping, List.lookup_append, lookup_optional, Dict.lookup_cons_ite, Option.or_assoc]

/-- The text that a mapping has, or none. -/
theorem text_of_optional {key : String} {t : Stripped} {items : List (Key × Yaml F)}
    (h : (Dict.empty.update items).get? (.str key) = if t.text ≠ "" then some (.str t.text) else none) :
    text_of key (.dict items) = t := by
  rw [text_of, as_dict_dict, Option.bind_some, h]
  by_cases ht : t.text = ""
  · rw [if_neg (not_not.2 ht), Stripped.eq_empty ht]
  · rw [if_pos ht]
    exact t.of_text

/-- An entry is read as what it was written from. -/
theorem read_entry_serialized (e : Entry F) : read_entry env (serialize_entry e) = .ok (some e) := by
  simp only [serialize_entry]
  split
  · next hempty =>
    obtain ⟨description, frames, response_mode, completion_text⟩ := e
    obtain rfl : description = .empty := Stripped.eq_empty hempty.1
    obtain rfl : response_mode = .empty := Stripped.eq_empty hempty.2.1
    obtain rfl : completion_text = .empty := Stripped.eq_empty hempty.2.2
    simp only [read_entry, coerce_frames, frame_list, coerce_serialized]
    rfl
  · have hd : text_of "description" (.dict (mapping e)) = e.description :=
      text_of_optional (by simp [get_mapping])
    have hr : text_of "response_mode" (.dict (mapping e)) = e.response_mode :=
      text_of_optional (by simp [get_mapping])
    have hc : text_of "completion_text" (.dict (mapping e)) = e.completion_text :=
      text_of_optional (by simp [get_mapping])
    have hframes : frame_list (.dict (mapping e)) = some (e.frames.map serialize_frame) := by
      simp [frame_list, get_mapping]
    simp only [read_entry, hd, hr, hc, coerce_frames, hframes, coerce_serialized]
    rfl

/-- Nothing of an entry is passed by that was written. -/
theorem leftover_serialize (e : Entry F) : leftover (serialize_entry e) = [] := by
  simp only [serialize_entry]
  split
  · simp [leftover, Yaml.as_dict, frame_list, leftover_serialized]
  · have hframes : frame_list (.dict (mapping e)) = some (e.frames.map serialize_frame) := by
      simp [frame_list, get_mapping]
    have hread : (mapping e).filter (fun p => !is_read p) = [] := by
      simp only [mapping, optional]
      split <;> split <;> split <;> rfl
    simp only [leftover, as_dict_dict, Option.map_some, items_mapping, hread, hframes, Option.getD_some,
      leftover_serialized]
    rfl

/-! ### Maps -/

theorem str_injective : Function.Injective fun n : Name => Key.str n.text := by
  rintro ⟨a, ha⟩ ⟨b, hb⟩ hab
  cases hab
  rfl

/-- The sequences of a serialised map. -/
def sequences_of (map : ActionMap F) : Dict Key (Yaml F) :=
  Dict.empty.update (map.sort_keys.items.map fun p => (.str p.1.text, serialize_entry p.2))

theorem items_sequences_of (map : ActionMap F) : (sequences_of map).items =
    map.sort_keys.items.map fun p => (.str p.1.text, serialize_entry p.2) := by
  refine Dict.items_update ?_
  have h := map.sort_keys.nodup.map str_injective
  simpa [Dict.empty, List.map_map, Function.comp_def] using h

theorem get_sequences_of (map : ActionMap F) (name : Name) :
    (sequences_of map).get? (.str name.text) = (map.get? name).map serialize_entry := by
  rw [← Dict.get?_sort_keys map name, Dict.get?, items_sequences_of, Dict.get?]
  induction map.sort_keys.items with
  | nil => rfl
  | cons p rest ih =>
    obtain ⟨n, e⟩ := p
    have hkey : Key.str name.text = Key.str n.text ↔ name = n := str_injective.eq_iff
    simp only [List.map_cons, Dict.lookup_cons_ite, hkey]
    split
    · rfl
    · exact ih

/-- The keys of the sequences are names. -/
theorem keys_sequences_of {map : ActionMap F} {k : Key} {v : Yaml F}
    (h : (sequences_of map).get? k = some v) :
    ∃ name e, k = .str name.text ∧ map.get? name = some e ∧ v = serialize_entry e := by
  rw [← Dict.mem_items, items_sequences_of] at h
  obtain ⟨⟨name, e⟩, hmem, heq⟩ := List.mem_map.1 h
  cases heq
  refine ⟨name, e, rfl, ?_, rfl⟩
  rw [← Dict.get?_sort_keys]
  exact Dict.mem_items.1 hmem

@[simp] theorem name?_str (name : Name) : (Key.str name.text).name? = some name := by
  simp [Key.name?, name.ok]

theorem name?_eq {k : Key} {name : Name} (h : k.name? = some name) : k = .str name.text := by
  cases k with
  | str s =>
    simp only [Key.name?] at h
    split at h
    · cases h
      rfl
    · cases h
  | other text => cases h

/-- What an entry becomes in the map. -/
def loaded (sdata : Yaml F) : Option (Entry F) :=
  match read_entry env sdata with
  | .ok entry => entry
  | .error _ => none

/-- What is loaded under each name. -/
theorem read_get {items : List (Key × Yaml F)} (hnodup : (items.map Prod.fst).Nodup) {m m' : ActionMap F}
    (h : read env items m = .ok m') (name : Name) :
    m'.get? name = ((items.lookup (.str name.text)).bind (loaded env)).or (m.get? name) := by
  induction items generalizing m with
  | nil =>
    cases h
    rfl
  | cons p rest ih =>
    obtain ⟨k, v⟩ := p
    rw [List.map_cons, List.nodup_cons] at hnodup
    obtain ⟨entry, hentry, hrest⟩ := bind_eq_ok.1 h
    rw [ih hnodup.2 hrest, Dict.lookup_cons_ite]
    by_cases hk : Key.str name.text = k
    · subst hk
      have hnone : rest.lookup (.str name.text) = none :=
        Option.not_isSome_iff_eq_none.1 fun hs => hnodup.1 ((Dict.lookup_isSome _ _).1 hs)
      rw [if_pos rfl, hnone, name?_str]
      cases entry <;> simp [loaded, hentry]
    · rw [if_neg hk]
      congr 1
      split
      · next _ e name' hname' =>
        have hne : name ≠ name' := by
          rintro rfl
          exact hk (name?_eq hname').symm
        rw [Dict.get?_set, if_neg hne]
      · rfl

/-- A document is loaded if each of its entries can be read. -/
theorem read_ok {items : List (Key × Yaml F)} (h : ∀ p ∈ items, ∃ e, read_entry env p.2 = .ok e)
    (m : ActionMap F) : ∃ m', read env items m = .ok m' := by
  induction items generalizing m with
  | nil => exact ⟨m, rfl⟩
  | cons p rest ih =>
    obtain ⟨e, he⟩ := h p (by simp)
    obtain ⟨m', hm'⟩ := ih (fun q hq => h q (List.mem_cons_of_mem _ hq)) _
    exact ⟨m', bind_eq_ok.2 ⟨e, he, hm'⟩⟩

theorem or_empty_dict (items : List (Key × Yaml F)) : or_empty env (some (.dict items)) = .dict items := by
  cases items <;> rfl

/-- A serialised map is opened as its sequences, and nothing is passed by. -/
theorem open_payload {map : ActionMap F} {bytes : Bytes} (h : env.parse bytes = .data (payload map)) :
    open_document env (some bytes) = .ok ⟨sequences_of map, []⟩ := by
  have hget : ∀ v : Yaml F, (Dict.empty.update [(Key.str "sequences", v)]).get? (.str "sequences") = some v ∧
      (Dict.empty.update [(Key.str "sequences", v)]).get? (.str "poses") = none := by
    simp [Dict.update]
  simp only [open_document, Option.map_some, h, payload, or_empty_dict, as_dict_dict, hget]
  rfl

/-- The map is loaded again from what it is serialised to. -/
theorem load_payload {map : ActionMap F} {bytes : Bytes} (h : env.parse bytes = .data (payload map)) :
    ∃ map', load env (some bytes) = .ok map' ∧ ∀ name, map'.get? name = map.get? name := by
  have hread : ∀ p ∈ (sequences_of map).items, ∃ e, read_entry env p.2 = .ok e := by
    intro p hp
    rw [items_sequences_of] at hp
    obtain ⟨q, -, rfl⟩ := List.mem_map.1 hp
    exact ⟨_, read_entry_serialized env q.2⟩
  obtain ⟨map', hmap'⟩ := read_ok env hread .empty
  refine ⟨map', ?_, fun name => ?_⟩
  · rw [load, open_payload env h]
    exact hmap'
  · have hget := read_get env (sequences_of map).nodup hmap' name
    rw [hget, ← Dict.get?, get_sequences_of]
    cases map.get? name with
    | none => rfl
    | some e => simp [loaded, read_entry_serialized]

end

end LocalVoice.ActionsManager
