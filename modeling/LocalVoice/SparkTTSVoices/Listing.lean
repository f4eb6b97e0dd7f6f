import LocalVoice.SparkTTSVoices.Commits
import LocalVoice.SparkTTSVoices.Profiles
import LocalVoice.TTSSpeakers.Visible

/-! What the readers see of a directory. Whatever journals are left behind, a listing and a loading
    depend on the last committed pairs alone (`Kept`), each of which says whose it is (`Canonical`);
    the scan passes over hidden files. -/

namespace LocalVoice.SparkTTSVoices
open LocalVoice.Lib

/-- The name of the file is hidden. -/
def SafeId.hidden (s : SafeId) : Bool := PyText.startswith s.val "."

/-! ### Names -/

theorem startswith_iff {x p : String} : PyText.startswith x p = true ↔ ∃ y, x = p ++ y := by
  rw [PyText.startswith, List.isPrefixOf_iff_prefix]
  constructor
  · rintro ⟨l, hl⟩
    exact ⟨String.ofList l, String.toList_inj.1 (by rw [String.toList_append, String.toList_ofList, hl])⟩
  · rintro ⟨y, rfl⟩
    exact ⟨y.toList, String.toList_append.symm⟩

theorem endswith_iff {x e : String} : PyText.endswith x e = true ↔ ∃ y, x = y ++ e := by
  rw [PyText.endswith, List.isSuffixOf_iff_suffix]
  constructor
  · rintro ⟨l, hl⟩
    exact ⟨String.ofList l, String.toList_inj.1 (by rw [String.toList_append, String.toList_ofList, hl])⟩
  · rintro ⟨y, rfl⟩
    exact ⟨y.toList, String.toList_append.symm⟩

/-- The first character decides whether a name is hidden. -/
theorem hidden_append {x : String} (y : String) (h : x ≠ "") :
    PyText.startswith (x ++ y) "." = PyText.startswith x "." := by
  have hne : x.toList ≠ [] := fun hnil => h (String.toList_inj.1 hnil)
  obtain ⟨ch, rest, hx⟩ := List.exists_cons_of_ne_nil hne
  have hdot : ".".toList = ['.'] := by decide
  simp [PyText.startswith, String.toList_append, hx, hdot, List.isPrefixOf]

theorem json_listed (s : SafeId) : is_listed_name (json_name s) = !s.hidden := by
  have hend : PyText.endswith (json_name s) ".json" = true := PyText.endswith_append _ _
  rw [is_listed_name, hend, decide_eq_true (json_entry s), json_name,
    hidden_append _ s.entry.2.1, SafeId.hidden]
  simp

/-- What the listing goes through has the JSON name of a voice. -/
theorem listed_name {n : String} (h : is_listed_name n = true) :
    ∃ s : SafeId, n = json_name s ∧ s.hidden = false := by
  rw [is_listed_name, Bool.and_eq_true, Bool.and_eq_true, decide_eq_true_eq] at h
  obtain ⟨⟨hdot, hend⟩, hentry⟩ := h
  obtain ⟨x, rfl⟩ := endswith_iff.1 hend
  have hshown : PyText.startswith (x ++ ".json") "." = false := by simpa using hdot
  have hne : x ≠ "" := by
    rintro rfl
    revert hshown
    decide
  rw [hidden_append _ hne] at hshown
  have hx : EntryName x := by
    refine ⟨fun hslash => hentry.1 ?_, hne, ?_, ?_⟩
    · rw [String.toList_append]
      exact List.mem_append_left _ hslash
    · rintro rfl
      revert hshown
      decide
    · rintro rfl
      revert hshown
      decide
  exact ⟨⟨x, hx⟩, rfl, hshown⟩

theorem txdir_hidden {s : SafeId} {t : Token} (h : s.val = txdir_name t) : s.hidden = true := by
  rw [SafeId.hidden, h, txdir_name]
  refine startswith_iff.2 ⟨"sparktts-txn-" ++ t.val, ?_⟩
  rw [← String.append_assoc]
  rfl

/-! ### What the readers see -/

/-- A pair says whose it is: the JSON has the voice id, which has the file id, and the name of the
    archive beside it. -/
def Canonical {β : Type} (C : Contents β) (last : SafeId → Option (β × β)) : Prop :=
  ∀ s a b, last s = some (a, b) → ∃ j vid, C.codec.load_json a = some j ∧
    j "voice_id" = some (.str vid) ∧ vid ≠ "" ∧ safe_id vid = some s ∧
    j "npz_file" = some (.str (npz_name s))

section
variable {β : Type} {C : Contents β} {root : Root} [DecidableEq β]
  {last last' : SafeId → Option (β × β)} {d d' : Dir β} {s : SafeId} {f : Filters}

theorem Kept.read_npz (h : Kept C.codec root last d) (s : SafeId) :
    read d (npz_name s) = (last s).map Prod.snd := by
  rw [read, h.npz s]
  cases last s <;> rfl

theorem Kept.read_json (h : Kept C.codec root last d) {ab : β × β} (hs : last s = some ab) :
    read d (json_name s) = some ab.1 := by
  rcases h.json s with hj | ⟨hnone, _⟩
  · rw [read, hj, hs]
    rfl
  · rw [hnone] at hs
    cases hs

/-- The names the listing goes through are those of the last pairs. -/
theorem Kept.mem_listed (h : Kept C.codec root last d) {n : String} :
    n ∈ (d.keys.filter fun n => is_listed_name n) ↔
      ∃ s, n = json_name s ∧ s.hidden = false ∧ (last s).isSome = true := by
  rw [Finset.mem_filter, Finmap.mem_keys]
  constructor
  · rintro ⟨hmem, hname⟩
    obtain ⟨s, rfl, hs⟩ := listed_name hname
    refine ⟨s, rfl, hs, ?_⟩
    rcases h.json s with hj | ⟨_, t, ht⟩
    · obtain ⟨x, hx⟩ := Finmap.mem_iff.1 hmem
      rw [hj] at hx
      cases hl : last s with
      | none =>
        rw [hl] at hx
        cases hx
      | some ab => rfl
    · rw [txdir_hidden ht] at hs
      cases hs
  · rintro ⟨s, rfl, hs, hsome⟩
    obtain ⟨ab, hab⟩ := Option.isSome_iff_exists.1 hsome
    refine ⟨Finmap.mem_of_lookup_eq_some (read_eq_some.1 (h.read_json hab)), ?_⟩
    rw [json_listed, hs]
    rfl

/-- An entry is listed under the voice id its file has. -/
theorem Kept.listed_voice (h : Kept C.codec root last d) {e : Entry} {ab : β × β}
    {j : String → Option Json} {voice_id : String} (hab : last s = some ab)
    (hj : C.codec.load_json ab.1 = some j) (hvid : j "voice_id" = some (.str voice_id))
    (hne : voice_id ≠ "") (he : listed C d (json_name s) = some e) : e.voice_id = .str voice_id := by
  have hid : field_or (some (Json.str voice_id)) (stem (json_name s)) = .str voice_id := by
    simp [field_or, Json.truthy, hne]
  rw [listed, h.read_json hab] at he
  simp only [Option.bind_some, hj] at he
  split at he
  · split at he
    · cases he
    · split at he
      · cases he
      · obtain ⟨m, _, rfl⟩ := Option.map_eq_some_iff.1 he
        rw [hvid]
        exact hid
  · cases he

theorem Kept.listed_id (h : Kept C.codec root last d) (hc : Canonical C last) {e : Entry}
    (he : listed C d (json_name s) = some e) (hsome : (last s).isSome = true) :
    ∃ vid, e.voice_id = .str vid ∧ safe_id vid = some s := by
  obtain ⟨⟨a, b⟩, hab⟩ := Option.isSome_iff_exists.1 hsome
  obtain ⟨j, vid, hj, hvid, hne, hsafe, -⟩ := hc s a b hab
  exact ⟨vid, h.listed_voice hab hj hvid hne he, hsafe⟩

/-- What is read of a voice depends on its last pair alone. -/
theorem Kept.listed_congr (h : Kept C.codec root last d) (h' : Kept C.codec root last' d')
    (hc : Canonical C last) (hsame : last s = last' s) (hsome : (last s).isSome = true) :
    listed C d (json_name s) = listed C d' (json_name s) := by
  obtain ⟨⟨a, b⟩, hab⟩ := Option.isSome_iff_exists.1 hsome
  obtain ⟨j, vid, hj, _, _, _, hnpz⟩ := hc s a b hab
  have htruthy : field_or (some (Json.str (npz_name s))) (stem (json_name s) ++ ".npz") =
      .str (npz_name s) := by
    simp [field_or, Json.truthy, (npz_entry s).2.1]
  rw [listed, listed, h.read_json hab, h'.read_json (hsame ▸ hab)]
  simp only [Option.bind_some, hj, hnpz, htruthy]
  rw [h.read_npz, h'.read_npz, hsame]

omit [DecidableEq β] in
theorem profile_metadata_none (j : String → Option Json) : profile_metadata C j none = none := by
  unfold profile_metadata
  split
  · split
    · rw [if_neg (by simp [profile_payload_matches])]
    · rfl
  · simp
  · rfl

/-- Nothing is loaded without an archive. -/
theorem Kept.embedding_none (h : Kept C.codec root last d) {voice_id : String}
    (model_id : Option String) (hs : safe_id voice_id = some s) (hnone : last s = none) :
    embedding_of C d voice_id model_id = none := by
  have hnpz : read d (npz_name s) = none := by rw [h.read_npz, hnone]; rfl
  rw [embedding_of, hs]
  simp only [Option.bind_eq_bind, Option.bind_some, hnpz, profile_metadata_none]
  cases (read d (json_name s)).bind C.codec.load_json with
  | none => rfl
  | some j => by_cases hvid : j "voice_id" = some (.str voice_id) <;> simp [guard]

/-- Another voice with the same file id is nothing to a reader. -/
theorem Kept.embedding_other (h : Kept C.codec root last d) {voice_id : String} {ab : β × β}
    (model_id : Option String) (hs : safe_id voice_id = some s) (hab : last s = some ab)
    {j : String → Option Json} (hj : C.codec.load_json ab.1 = some j)
    (hother : j "voice_id" ≠ some (.str voice_id)) :
    embedding_of C d voice_id model_id = none := by
  rw [embedding_of, hs]
  simp [h.read_json hab, hj, guard, hother]

theorem Kept.embedding_congr (h : Kept C.codec root last d) (h' : Kept C.codec root last' d')
    {voice_id : String} (model_id : Option String) (hs : safe_id voice_id = some s)
    (hsame : last s = last' s) :
    embedding_of C d voice_id model_id = embedding_of C d' voice_id model_id := by
  cases hl : last s with
  | none =>
    rw [h.embedding_none model_id hs hl, h'.embedding_none model_id hs (hsame ▸ hl)]
  | some ab =>
    have hnpz : read d (npz_name s) = read d' (npz_name s) := by
      rw [h.read_npz, h'.read_npz, hsame]
    have hjson : read d (json_name s) = read d' (json_name s) := by
      rw [h.read_json hl, h'.read_json (hsame ▸ hl)]
    rw [embedding_of, embedding_of, hs]
    simp only [Option.bind_eq_bind, Option.bind_some, hnpz, hjson]

/-- Of the names in a list at most one gives an item with the property. -/
theorem filter_filterMap_one {ι ε : Type} [DecidableEq ι] {g : ι → Option ε} {p : ε → Bool} {n : ι} :
    ∀ {names : List ι}, names.Nodup →
      (∀ m ∈ names, ∀ e, g m = some e → p e = true → m = n) →
      (names.filterMap g).filter p = if n ∈ names then (g n).toList.filter p else []
  | [], _, _ => by simp
  | m :: rest, hnodup, hone => by
    rw [List.nodup_cons] at hnodup
    have hrest := filter_filterMap_one hnodup.2 fun k hk => hone k (List.mem_cons_of_mem _ hk)
    have hsplit : ((m :: rest).filterMap g).filter p =
        (g m).toList.filter p ++ (rest.filterMap g).filter p := by
      cases hg : g m with
      | none => simp [hg]
      | some e =>
        rw [List.filterMap_cons_some hg]
        exact List.filter_append [e] _
    rw [hsplit, hrest]
    by_cases hm : m = n
    · subst hm
      rw [if_neg hnodup.1, if_pos (List.mem_cons_self ..), List.append_nil]
    · have hnil : (g m).toList.filter p = [] := by
        rw [List.filter_eq_nil_iff]
        intro e he hp
        exact hm (hone m (List.mem_cons_self ..) e (Option.mem_toList.1 he) hp)
      rw [hnil, List.nil_append]
      simp [Ne.symm hm]

/-- The entries of a listing under one voice id. -/
def entries_of (voice_id : String) (l : List Entry) : List Entry :=
  l.filter fun e => decide (e.voice_id = .str voice_id)

/-- The entries of a voice come from its file, if that is shown. -/
theorem Kept.entries (h : Kept C.codec root last d) (hc : Canonical C last) {voice_id : String}
    (f : Filters) (hs : safe_id voice_id = some s) :
    entries_of voice_id (list_from_disk C d f) =
      if s.hidden = false ∧ (last s).isSome = true then
        (listed C d (json_name s)).toList.filter fun e =>
          f.admits e && decide (e.voice_id = .str voice_id)
      else [] := by
  have hone : ∀ m ∈ (d.keys.filter fun n => is_listed_name n).sort (· ≤ ·), ∀ e,
      listed C d m = some e → (f.admits e && decide (e.voice_id = .str voice_id)) = true →
        m = json_name s := by
    intro m hm e he hp
    obtain ⟨s', rfl, _, hsome⟩ := h.mem_listed.1 ((Finset.mem_sort _).1 hm)
    obtain ⟨vid, hvid, hsafe⟩ := h.listed_id hc he hsome
    rw [Bool.and_eq_true, decide_eq_true_eq, hvid] at hp
    obtain rfl := Json.str.inj hp.2
    rw [Option.some.inj (hsafe.symm.trans hs)]
  rw [entries_of, list_from_disk, List.filter_filter]
  simp only [Bool.and_comm (decide _)]
  rw [filter_filterMap_one (Finset.sort_nodup _ _) hone]
  refine if_congr ⟨fun hmem => ?_, fun hs' => ?_⟩ rfl rfl
  · obtain ⟨s', hname, hs'⟩ := h.mem_listed.1 ((Finset.mem_sort _).1 hmem)
    obtain rfl := json_name_inj hname
    exact hs'
  · exact (Finset.mem_sort _).2 (h.mem_listed.2 ⟨s, rfl, hs'⟩)

end

end LocalVoice.SparkTTSVoices
