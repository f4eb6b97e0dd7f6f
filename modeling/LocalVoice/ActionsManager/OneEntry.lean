import LocalVoice.ActionsManager.RoundTrip

/-! A save changes one entry. It writes the file from the actions in memory, so the file keeps what it had
    when the memory is what the file would be loaded as, and the loader passes nothing by; when the new
    file cannot be read after it was written, the save raises with everything in place. -/

namespace LocalVoice.ActionsManager
open LocalVoice.Lib

/-! ### Texts -/

/-- The text has no next-line character, which PyYAML writes as it is and reads as a line break. -/
def line_safe (s : String) : Bool := !s.toList.contains (Char.ofNat 0x85)

def Entry.line_safe {F : Type} (e : Entry F) : Bool :=
  ActionsManager.line_safe e.description.text && ActionsManager.line_safe e.response_mode.text &&
    ActionsManager.line_safe e.completion_text.text &&
    e.frames.all fun f => f.joints.keys.all ActionsManager.line_safe

/-- All texts of a map are such. -/
def LineSafe {F : Type} (map : ActionMap F) : Prop :=
  ∀ name e, map.get? name = some e → e.line_safe = true

/-- PyYAML loads what it dumped. -/
def Env.Faithful {F Bytes : Type} (env : Env F Bytes) : Prop :=
  ∀ map bytes, LineSafe map → env.dump (payload map) = some bytes → env.parse bytes = .data (payload map)

/-- The texts that a save gets, and those in memory. -/
structure Clean {F Bytes : Type} (s : Store F Bytes) (required : List String) (args : Args F) : Prop where
  memory : LineSafe s.action_map
  required : ∀ r ∈ required, line_safe r = true
  description : ∀ text, args.description = some text → line_safe text = true

section
variable {F Bytes : Type} (env : Env F Bytes)

/-! ### What a save should do -/

/-- The same action, and the same beside it. -/
def Unchanged (v v' : Yaml F) : Prop := read_entry env v = read_entry env v' ∧ leftover v = leftover v'

/-- The second file is loaded as the first one with `name` inserted or replaced, and has every other
    entry of it. -/
structure Inserted (name : Name) (frames : List (Frame F)) (description : Option String)
    (before after : Option Bytes) : Prop where
  loads : ∃ map map', load env before = .ok map ∧ load env after = .ok map' ∧
    ∀ k, map'.get? k = (map.set name (new_entry (map.get? name) description frames)).get? k
  others : ∃ doc doc', open_document env before = .ok doc ∧ open_document env after = .ok doc' ∧
    (∀ k v, k ≠ .str name.text → doc.sequences.get? k = some v →
      ∃ v', doc'.sequences.get? k = some v' ∧ Unchanged env v v') ∧
    ∀ p ∈ doc.stray, p.1 ≠ .str name.text → p ∈ doc'.stray

def Store.bytes (s : Store F Bytes) : Option Bytes := s.file.map File.bytes

/-- A save that returns changes one entry, one that raises changes nothing. -/
structure Meets (s : Store F Bytes) (required : List String) (args : Args F) (faults : Faults) : Prop where
  saved : ∀ r, (s.save env required args faults).2 = .ok r → ∃ name frames,
    validate_name args.name = .ok name ∧ validate_frames env required args.frames = .ok frames ∧
    Inserted env name frames args.description s.bytes (s.save env required args faults).1.bytes
  raised : ∀ e, (s.save env required args faults).2 = .error e →
    (s.save env required args faults).1.bytes = s.bytes ∧
    ∀ k, (s.save env required args faults).1.action_map.get? k = s.action_map.get? k

/-! ### When it does -/

/-- The loader passes nothing by but what is replaced. -/
structure Understood (doc : Document F) (name : Name) : Prop where
  entries : ∀ k v, k ≠ .str name.text → doc.sequences.get? k = some v →
    k.name?.isSome = true ∧ (loaded env v).isSome = true ∧ leftover v = []
  stray : ∀ p ∈ doc.stray, p.1 = .str name.text

/-- The memory is what the file would be loaded as, but for what is replaced. -/
structure InStep (s : Store F Bytes) (name : Name) (frames : List (Frame F)) (description : Option String)
    (doc : Document F) (map : ActionMap F) : Prop where
  opens : open_document env s.bytes = .ok doc
  loads : load env s.bytes = .ok map
  others : ∀ k, k ≠ name → s.action_map.get? k = map.get? k
  kept : new_entry (s.action_map.get? name) description frames =
    new_entry (map.get? name) description frames
  understood : Understood env doc name

/-- A save that replaces the file reads it again, and is in step with it; or it writes what is there. -/
def Keeps (s : Store F Bytes) (required : List String) (args : Args F) (faults : Faults) : Prop :=
  ∀ name frames serialized, s.reaches env required args faults = some (name, frames, serialized) →
    if faults.reread then
      s.action_map.get? name = some (new_entry (s.action_map.get? name) args.description frames) ∧
        s.bytes = env.dump (payload s.action_map)
    else ∃ doc map, InStep env s name frames args.description doc map

/-! ### Saved texts -/

section
variable {env} {s : Store F Bytes} {required : List String} {args : Args F} {name : Name}
  {frames : List (Frame F)}

theorem line_safe_strip {text : String} (h : line_safe text = true) : line_safe (PyText.strip text) = true := by
  simp only [line_safe, Bool.not_eq_true', List.contains_eq_mem, decide_eq_false_iff_not] at h ⊢
  intro hmem
  rw [PyText.strip, String.toList_ofList, PyText.strip_chars, PyText.rstrip, List.mem_reverse] at hmem
  have hfront := (List.dropWhile_suffix _).subset hmem
  exact h ((List.dropWhile_suffix _).subset (List.mem_reverse.1 hfront))

/-- A frame that is accepted has the joints that are asked for. -/
theorem validate_frame_keys {idx : ℕ} {v : Yaml F} {f : Frame F}
    (h : validate_frame env required idx v = .ok f) : ∀ j ∈ f.joints.keys, j ∈ required := by
  simp only [validate_frame] at h
  split at h
  · cases h
  · split at h
    · cases h
    · split at h
      · cases h
      · obtain ⟨values, hvalues, h⟩ := bind_eq_ok.1 h
        obtain ⟨delay, -, h⟩ := bind_eq_ok.1 h
        cases h
        intro j hj
        rcases Dict.mem_keys_update hj with hnone | hj
        · cases hnone
        · obtain ⟨p, hp, rfl⟩ := List.mem_map.1 hj
          obtain ⟨req, hreq, hp⟩ := mem_mapM_ok hvalues p hp
          obtain ⟨x, -, rfl⟩ := map_eq_ok.1 hp
          exact hreq

theorem validate_frames_keys {v : Yaml F} (h : validate_frames env required v = .ok frames) :
    ∀ f ∈ frames, ∀ j ∈ f.joints.keys, j ∈ required := by
  cases v with
  | list items =>
    simp only [validate_frames] at h
    split at h
    · cases h
    · split at h
      · cases h
      · intro f hf
        obtain ⟨p, -, hp⟩ := mem_mapM_ok h f hf
        exact validate_frame_keys hp
  | _ => cases h

/-- The new map has no next-line character either. -/
theorem Clean.new_map (h : Clean s required args) (hframes : validate_frames env required args.frames = .ok frames) :
    LineSafe (s.new_map name frames args.description) := by
  intro k e he
  rw [Store.new_map, Dict.get?_set] at he
  split at he
  · cases he
    have hprior : ∀ e, s.action_map.get? name = some e → e.line_safe = true := fun e => h.memory name e
    have hall : (frames.all fun f => f.joints.keys.all line_safe) = true := by
      simp only [List.all_eq_true]
      exact fun f hf j hj => h.required j (validate_frames_keys hframes f hf j hj)
    have hempty : line_safe Stripped.empty.text = true := by decide
    have hdescription : ∀ text, args.description = some text → line_safe (PyText.strip text) = true :=
      fun text htext => line_safe_strip (h.description text htext)
    simp only [Entry.line_safe, Bool.and_eq_true] at hprior ⊢
    refine ⟨⟨⟨?_, ?_⟩, ?_⟩, hall⟩
    · cases hd : args.description with
      | some text => exact hdescription text hd
      | none =>
        cases hp : s.action_map.get? name with
        | none => exact hempty
        | some e => exact (hprior e hp).1.1.1
    · cases hp : s.action_map.get? name with
      | none => exact hempty
      | some e => exact (hprior e hp).1.1.2
    · cases hp : s.action_map.get? name with
      | none => exact hempty
      | some e => exact (hprior e hp).1.2
  · exact h.memory k e he

/-! ### One entry -/

variable {description : Option String} {bytes : Bytes}

/-- What is written is loaded as the new map, entry for entry. -/
theorem written (henv : env.Faithful) (hclean : LineSafe (s.new_map name frames description))
    (hdump : env.dump (payload (s.new_map name frames description)) = some bytes) :
    open_document env (some bytes) = .ok ⟨sequences_of (s.new_map name frames description), []⟩ ∧
      ∃ map', load env (some bytes) = .ok map' ∧
        ∀ k, map'.get? k = (s.new_map name frames description).get? k := by
  have hparse := henv _ bytes hclean hdump
  exact ⟨open_payload env hparse, load_payload env hparse⟩

/-- An entry that the loader takes in as a whole is unchanged when it is written again. -/
theorem unchanged_of_loaded {v : Yaml F} {e : Entry F} (hloaded : loaded env v = some e)
    (hleft : leftover v = []) : Unchanged env v (serialize_entry e) := by
  have hread : read_entry env v = .ok (some e) := by
    simp only [loaded] at hloaded
    split at hloaded
    · next entry hentry => rw [hentry, hloaded]
    · cases hloaded
  exact ⟨by rw [hread, read_entry_serialized], by rw [hleft, leftover_serialize]⟩

/-- What the new file has is what the old one had, if the memory is in step with it. -/
theorem InStep.inserted {doc : Document F} {map : ActionMap F} (henv : env.Faithful)
    (h : InStep env s name frames description doc map)
    (hclean : LineSafe (s.new_map name frames description))
    (hdump : env.dump (payload (s.new_map name frames description)) = some bytes) :
    Inserted env name frames description s.bytes (some bytes) := by
  obtain ⟨hopen, map', hload, hget⟩ := written henv hclean hdump
  refine ⟨⟨map, map', h.loads, hload, fun k => ?_⟩, ⟨doc, _, h.opens, hopen, fun k v hk hv => ?_, ?_⟩⟩
  · rw [hget, Store.new_map, Dict.get?_set, Dict.get?_set, h.kept]
    split
    · rfl
    · next hne => exact h.others k hne
  · obtain ⟨hname, hloaded, hleft⟩ := h.understood.entries k v hk hv
    obtain ⟨n, hn⟩ := Option.isSome_iff_exists.1 hname
    obtain ⟨e, he⟩ := Option.isSome_iff_exists.1 hloaded
    obtain rfl := name?_eq hn
    have hne : n ≠ name := by
      rintro rfl
      exact hk rfl
    have hloads := h.loads
    rw [load, h.opens] at hloads
    have hmap : map.get? n = some e := by
      rw [read_get env doc.sequences.nodup hloads n, ← Dict.get?, hv, Option.bind_some, he]
      rfl
    refine ⟨serialize_entry e, ?_, unchanged_of_loaded he hleft⟩
    rw [get_sequences_of, Store.new_map, Dict.get?_set, if_neg hne, h.others n hne, hmap]
    rfl
  · intro p hp hne
    exact absurd (h.understood.stray p hp) hne

/-- If the new file has what the old one had, the memory was in step with it. -/
theorem Inserted.in_step (henv : env.Faithful) (hclean : LineSafe (s.new_map name frames description))
    (hdump : env.dump (payload (s.new_map name frames description)) = some bytes)
    (h : Inserted env name frames description s.bytes (some bytes)) :
    ∃ doc map, InStep env s name frames description doc map := by
  obtain ⟨hopen, map'', hload, hget⟩ := written henv hclean hdump
  obtain ⟨map, map', hmap, hmap', hsame⟩ := h.loads
  obtain ⟨doc, doc', hdoc, hdoc', hothers, hstray⟩ := h.others
  cases hload.symm.trans hmap'
  cases hopen.symm.trans hdoc'
  have hnew : ∀ k, (s.new_map name frames description).get? k =
      (map.set name (new_entry (map.get? name) description frames)).get? k := fun k => (hget k).symm.trans (hsame k)
  refine ⟨doc, map, hdoc, hmap, fun k hk => ?_, ?_, ⟨fun k v hk hv => ?_, fun p hp => ?_⟩⟩
  · have hk' := hnew k
    rwa [Store.new_map, Dict.get?_set, Dict.get?_set, if_neg hk, if_neg hk] at hk'
  · have hk' := hnew name
    rw [Store.new_map, Dict.get?_set, Dict.get?_set, if_pos rfl, if_pos rfl] at hk'
    exact Option.some.inj hk'
  · obtain ⟨v', hv', hread, hleft⟩ := hothers k v hk hv
    obtain ⟨n, e, rfl, -, rfl⟩ := keys_sequences_of hv'
    rw [read_entry_serialized] at hread
    rw [leftover_serialize] at hleft
    exact ⟨by simp, by simp [loaded, hread], hleft⟩
  · by_contra hne
    cases hstray p hp hne

/-- A save that can be read again changes one entry if and only if the memory is in step. -/
theorem Replaced.meets_iff {faults : Faults} {p : Name × List (Frame F) × Bytes} (henv : env.Faithful)
    (hclean : Clean s required args) (h : Replaced env s faults required args p) :
    Meets env s required args faults ↔ if faults.reread then
      s.action_map.get? p.1 = some (new_entry (s.action_map.get? p.1) args.description p.2.1) ∧
        s.bytes = env.dump (payload s.action_map)
    else ∃ doc map, InStep env s p.1 p.2.1 args.description doc map := by
  have hsafe : LineSafe (s.new_map p.1 p.2.1 args.description) := hclean.new_map h.frames
  have hbytes : (s.save env required args faults).1.bytes = some p.2.2 := by
    rw [Store.bytes, h.file]
    rfl
  cases hreread : faults.reread with
  | false =>
    obtain ⟨r, hr⟩ := h.ok_iff.2 hreread
    simp only [Bool.false_eq_true, if_false]
    constructor
    · intro hmeets
      obtain ⟨name, frames, hname, hframes, hinserted⟩ := hmeets.saved r hr
      cases h.name.symm.trans hname
      cases h.frames.symm.trans hframes
      rw [hbytes] at hinserted
      exact hinserted.in_step henv hsafe h.dump
    · rintro ⟨doc, map, hstep⟩
      refine ⟨fun _ _ => ⟨p.1, p.2.1, h.name, h.frames, ?_⟩, fun e he => ?_⟩
      · rw [hbytes]
        exact hstep.inserted henv hsafe h.dump
      · rw [hr] at he
        cases he
  | true =>
    have hraises : ∃ e, (s.save env required args faults).2 = .error e := by
      cases hres : (s.save env required args faults).2 with
      | error e => exact ⟨e, rfl⟩
      | ok r =>
        have hfalse := h.ok_iff.1 ⟨r, hres⟩
        rw [hreread] at hfalse
        cases hfalse
    obtain ⟨e, he⟩ := hraises
    simp only [if_true]
    constructor
    · intro hmeets
      obtain ⟨hsame, hmap⟩ := hmeets.raised e he
      have hname := hmap p.1
      rw [h.action_map, Store.new_map, Dict.get?_set, if_pos rfl] at hname
      refine ⟨hname.symm, ?_⟩
      have hdump := h.dump
      rw [Store.new_map, Dict.set_self hname.symm] at hdump
      rw [← hsame, hbytes, hdump]
    · rintro ⟨hthere, hsame⟩
      have hmap : s.new_map p.1 p.2.1 args.description = s.action_map := Dict.set_self hthere
      refine ⟨fun r hr => ?_, fun _ _ => ⟨?_, fun k => ?_⟩⟩
      · rw [he] at hr
        cases hr
      · rw [hbytes, hsame, ← h.dump, hmap]
      · rw [h.action_map, hmap]

end

end

/-- A map that the manager has is loaded again from what it is serialised to; and a save changes one
    entry, or raises with everything as it was, if and only if it is refused before it replaces the file,
    or the memory is in step with the file and the new file can be read. -/
theorem save_one_entry {F Bytes : Type} (env : Env F Bytes) (henv : env.Faithful) :
    (∀ map bytes, LineSafe map → env.dump (payload map) = some bytes →
      ∃ map', load env (some bytes) = .ok map' ∧ ∀ name, map'.get? name = map.get? name) ∧
    ∀ (s : Store F Bytes) (required : List String) (args : Args F) (faults : Faults), Clean s required args →
      (Meets env s required args faults ↔ Keeps env s required args faults) := by
  refine ⟨fun map bytes hsafe hdump => load_payload env (henv map bytes hsafe hdump), ?_⟩
  intro s required args faults hclean
  rcases save_cases env s faults required args with hrefused | ⟨⟨name, frames, bytes⟩, hreplaced⟩
  · refine iff_of_true ⟨fun r hr => ?_, fun e _ => ⟨?_, fun k => ?_⟩⟩ fun name frames bytes hreaches => ?_
    · obtain ⟨e, he⟩ := hrefused.raises
      rw [he] at hr
      cases hr
    · rw [Store.bytes, hrefused.file]
      rfl
    · rw [hrefused.action_map]
    · rw [hrefused.reaches] at hreaches
      cases hreaches
  · rw [hreplaced.meets_iff henv hclean]
    constructor
    · intro h name' frames' bytes' hreaches
      cases hreplaced.reaches.symm.trans hreaches
      exact h
    · intro h
      exact h name frames bytes hreplaced.reaches

/-! ### A disk of values -/

/-- Files that hold values, with whole numbers for floats, and are all of one size; a digest names the
    entries. -/
def sample : Env ℤ (Yaml ℤ) where
  convert := fun
    | .int n => .ok n
    | _ => .error .invalid
  is_zero := (· = 0)
  delay_ok := (0 < ·)
  default_delay := 1
  pose_delay := 2
  clash := fun _ _ => true
  parse := .data
  dump := some
  size := fun _ => 120
  etag := fun
    | .dict [(_, .dict items)] => items.foldl (fun digest p => digest ++ p.1.text) "sha256:"
    | _ => "sha256:"

theorem sample_faithful : sample.Faithful := by
  rintro map _ - ⟨⟩
  rfl

def one_frame : Yaml ℤ := .list [.dict [(.str "joints", .dict [(.str "gripper.pos", .int 3)])]]

/-- `wave`, over the etag of a file in which somebody put `nod`. -/
def wave : Args ℤ := ⟨"wave", one_frame, some "sha256:nod", some "say hello"⟩

def nod_file : File (Yaml ℤ) := ⟨.dict [(.str "sequences", .dict [(.str "nod", one_frame)])], 7⟩

/-- A manager that loaded `nod`, and one that was there before it. -/
def loaded_store : Store ℤ (Yaml ℤ) :=
  ⟨some nod_file, Dict.empty.set ⟨"nod", by decide⟩ ⟨.empty, [⟨Dict.empty.set "gripper.pos" 3, 1⟩], .empty, .empty⟩,
    none⟩

def stale_store : Store ℤ (Yaml ℤ) := ⟨some nod_file, .empty, none⟩

def no_fault : Faults := ⟨false, false, false, false, 8⟩

theorem nod_in_step {name : Name} {frames : List (Frame ℤ)} :
    InStep sample loaded_store name frames wave.description
      ⟨Dict.empty.set (.str "nod") one_frame, []⟩ loaded_store.action_map where
  opens := rfl
  loads := rfl
  others := fun _ _ => rfl
  kept := rfl
  understood := by
    refine ⟨fun k v _ hv => ?_, by simp⟩
    rw [Dict.get?_set] at hv
    split at hv
    · next hk =>
      cases hv
      subst hk
      exact ⟨rfl, rfl, rfl⟩
    · cases hv

theorem save_one_entry_nod : (loaded_store.save sample ["gripper.pos"] wave no_fault).2.isOk = true ∧
    Meets sample loaded_store ["gripper.pos"] wave no_fault := by
  refine ⟨by decide +kernel, ((save_one_entry sample sample_faithful).2 _ _ _ _ ⟨?_, ?_, ?_⟩).2 ?_⟩
  · intro k e he
    rw [loaded_store, Dict.get?_set] at he
    split at he
    · cases he
      decide +kernel
    · cases he
  · decide
  · rintro text ⟨⟩
    decide
  · intro name frames serialized hreaches
    exact ⟨_, _, nod_in_step⟩

/-- An entry that the file had is not loaded from the new one. -/
theorem not_meets_of_lost {F Bytes : Type} {env : Env F Bytes} {s : Store F Bytes} {required : List String}
    {args : Args F} {faults : Faults} (k : Name) (hk : k.text ≠ args.name)
    (hok : (s.save env required args faults).2.isOk = true)
    (hbefore : ((load env s.bytes).toOption.bind (·.get? k)).isSome = true)
    (hafter : ((load env (s.save env required args faults).1.bytes).toOption.bind (·.get? k)).isSome = false) :
    ¬ Meets env s required args faults := by
  intro h
  obtain ⟨r, hr⟩ : ∃ r, (s.save env required args faults).2 = .ok r := by
    cases hres : (s.save env required args faults).2 with
    | ok r => exact ⟨r, rfl⟩
    | error e =>
      rw [hres] at hok
      cases hok
  obtain ⟨name, frames, hname, -, hinserted⟩ := h.saved r hr
  obtain ⟨map, map', hmap, hmap', hget⟩ := hinserted.loads
  have hne : k ≠ name := by
    rintro rfl
    simp only [validate_name] at hname
    split at hname
    · cases hname
      exact hk rfl
    · cases hname
  have hsame := hget k
  rw [Dict.get?_set, if_neg hne] at hsame
  rw [hmap] at hbefore
  rw [hmap'] at hafter
  simp only [Except.toOption, Option.bind_some] at hbefore hafter
  rw [hsame, hbefore] at hafter
  cases hafter

theorem save_loses_nod : ¬ Meets sample stale_store ["gripper.pos"] wave no_fault :=
  not_meets_of_lost ⟨"nod", by decide⟩ (by decide) (by decide +kernel) (by decide +kernel) (by decide +kernel)

end LocalVoice.ActionsManager
