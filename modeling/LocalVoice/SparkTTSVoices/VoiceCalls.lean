import LocalVoice.SparkTTSVoices.Listing

/-! What a registration writes is a profile of its voice in the eyes of the readers (`Fit`), and what
    each call of a process does to the last pairs: a registration publishes one that says whose it
    is, over nothing or over a profile of the same voice; a deletion takes one away. -/

namespace LocalVoice.SparkTTSVoices
open LocalVoice.Lib

/-! ### What is written is a profile -/

/-- A model id that is canonical already. -/
def CanonicalModel (x : String) : Prop := canonical_model_id (some (.str x)) none = some x

theorem canonical_str (x : String) (default : Option String) :
    canonical_model_id (some (.str x)) default =
      if TTSSpeakers.canonical_model_id (PyText.strip x) = "" then default
      else some (TTSSpeakers.canonical_model_id (PyText.strip x)) := rfl

theorem canonical_of_canonical {x : String} (h : TTSSpeakers.canonical_model_id x = x) (hne : x ≠ "") :
    CanonicalModel x := by
  have hstrip : TTSSpeakers.canonical_model_id (PyText.strip x) = TTSSpeakers.canonical_model_id x := by
    rw [TTSSpeakers.canonical_model_id, TTSSpeakers.canonical_model_id, PyText.strip_strip]
  rw [CanonicalModel, canonical_str, hstrip, h, if_neg hne]

theorem spark_canonical : CanonicalModel spark_model_id :=
  canonical_of_canonical (by decide) (by decide)

theorem qwen_canonical : CanonicalModel qwen_base_model_id :=
  canonical_of_canonical (by decide) (by decide)

theorem canonical_result {v : Option Json} {default : Option String} {x : String}
    (h : canonical_model_id v default = some x) (hdefault : ∀ y, default = some y → CanonicalModel y) :
    CanonicalModel x := by
  unfold canonical_model_id at h
  split at h
  · exact hdefault x h
  · exact hdefault x h
  · next v _ _ =>
    dsimp only at h
    split at h
    · exact hdefault x h
    · next hne =>
      obtain rfl := Option.some.inj h
      exact canonical_of_canonical (TTSSpeakers.canonical_idem _) hne

theorem add_models_ok {l : List Json} : ∀ out : List String,
    (∀ v ∈ l, ∃ x, canonical_model_id (some v) none = some x) →
      ∃ out', add_models l out = some out' ∧ ∀ x ∈ out, x ∈ out' := by
  induction l with
  | nil => exact fun out _ => ⟨out, rfl, fun _ hx => hx⟩
  | cons v rest ih =>
    intro out h
    obtain ⟨x, hx⟩ := h v (List.mem_cons_self ..)
    obtain ⟨out', hout', hsub⟩ := ih (if x ∈ out then out else out ++ [x])
      fun w hw => h w (List.mem_cons_of_mem _ hw)
    refine ⟨out', by rw [add_models, hx]; exact hout', fun y hy => hsub y ?_⟩
    split
    · exact hy
    · exact List.mem_append_left _ hy

theorem add_models_canonical {l : List Json} : ∀ {out out' : List String},
    add_models l out = some out' → (∀ x ∈ out, CanonicalModel x) → ∀ x ∈ out', CanonicalModel x := by
  induction l with
  | nil =>
    intro out out' h hout
    obtain rfl := Option.some.inj h
    exact hout
  | cons v rest ih =>
    intro out out' h hout
    rw [add_models] at h
    split at h
    · cases h
    · next x hx =>
      refine ih h fun y hy => ?_
      split at hy
      · exact hout y hy
      · rcases List.mem_append.1 hy with hy | hy
        · exact hout y hy
        · obtain rfl := List.mem_singleton.1 hy
          exact canonical_result hx nofun

section
variable {β : Type} {C : Contents β} {p : Prepared}

theorem normalise_canonical {model : String} {v : Option Json} {models : List String}
    (h : normalise_compatible_models C model v = some models) : ∀ x ∈ models, CanonicalModel x := by
  rw [normalise_compatible_models] at h
  split at h
  · exact add_models_canonical h nofun
  · obtain ⟨l, _, h⟩ := Option.bind_eq_some_iff.1 h
    exact add_models_canonical h nofun

/-- A compatibility list that was written is read again. -/
theorem normalise_written {model : String} {models : List String} (hmodel : CanonicalModel model)
    (hmodels : ∀ x ∈ models, CanonicalModel x) : ∃ out,
      normalise_compatible_models C model (some (C.of_list models)) = some out ∧ model ∈ out := by
  have hall : ∀ v ∈ models.map Json.str, ∃ x, canonical_model_id (some v) none = some x := by
    intro v hv
    obtain ⟨x, hx, rfl⟩ := List.mem_map.1 hv
    exact ⟨x, hmodels x hx⟩
  have hstep : ∀ l, add_models (.str model :: l) [] = add_models l [model] := by
    intro l
    rw [add_models, show canonical_model_id (some (.str model)) none = some model from hmodel]
    simp
  rw [normalise_compatible_models]
  split
  · obtain ⟨out, hout, hsub⟩ := add_models_ok (l := []) [model] nofun
    exact ⟨out, by rw [hstep, hout], hsub model (by simp)⟩
  · next v hv =>
    obtain ⟨hlist, _⟩ := Option.filter_eq_some_iff.1 hv
    obtain rfl := Option.some.inj hlist
    obtain ⟨out, hout, hsub⟩ := add_models_ok [model] hall
    refine ⟨out, ?_, hsub model (by simp)⟩
    rw [C.items_of_list, Option.bind_some, hstep, hout]

/-- The metadata of a profile is read if it was written canonical and fits the arrays. -/
theorem metadata_written (type : ProfileType) {j : String → Option Json} {npz : Option β}
    {model : String} {models : List String} (hmodel : j "model_id" = some (.str model))
    (htype : j "profile_type" = some (.str type.name))
    (hcompatible : j "compatible_models" = some (C.of_list models))
    (hcanonical : CanonicalModel model) (hmodels : ∀ x ∈ models, CanonicalModel x)
    (hpayload : profile_payload_matches C type npz = true) :
    ∃ m, profile_metadata C j npz = some m := by
  obtain ⟨out, hout, hmem⟩ := normalise_written (C := C) hcanonical hmodels
  have hof : profile_type_of (.str type.name) = some type := by cases type <;> decide
  refine ⟨⟨model, type, out, false⟩, ?_⟩
  rw [profile_metadata, hmodel, htype, hcompatible]
  dsimp only
  rw [show canonical_model_id (some (.str model)) none = some model from hcanonical, hof]
  dsimp only
  rw [if_pos hpayload, hout]
  dsimp only
  rw [if_pos hmem]

/-- What a registration writes is a profile of its voice in the eyes of the readers. -/
structure Fit (C : Contents β) (p : Prepared) : Prop where
  voice_id : p.json_data.get? "voice_id" = some (.str p.voice_id)
  nonempty : p.voice_id ≠ ""
  safe : safe_id p.voice_id = some p.safe
  npz_file : p.json_data.get? "npz_file" = some (.str (npz_name p.safe))
  «metadata» : ∀ t : String, ∃ m, profile_metadata C (p.json_data.set "__pair_token" (.str t)).get?
    (some (C.codec.savez p.npz_arrays t)) = some m

/-- The key of the pair token is none of the others. -/
theorem get?_token {j : Dict String Json} {v : Json} {key : String} (h : key ≠ "__pair_token") :
    (j.set "__pair_token" v).get? key = j.get? key := by
  rw [Dict.get?_set, if_neg h]

/-- A field of what is written. -/
theorem get?_updated {j : Dict String Json} {items : List (String × Json)} {key : String} {v : Json}
    (hv : items.reverse.lookup key = some v) : (j.update items).get? key = some v := by
  rw [Dict.get?_update, hv, Option.some_or]

/-- A field of what is written, beside its pair token. -/
theorem get?_written {j : Dict String Json} {items : List (String × Json)} {key t : String} {v : Json}
    (h : key ≠ "__pair_token") (hv : items.reverse.lookup key = some v) :
    ((j.update items).set "__pair_token" (.str t)).get? key = some v := by
  rw [get?_token h, get?_updated hv]

theorem prepare_profile_fit {json : Option (Dict String Json)} {npz : Option (Dict String Arr)}
    {voice_id model_id : Option String} {compatible : Option Json}
    (h : prepare_profile C json npz voice_id model_id compatible = some p) : Fit C p := by
  obtain ⟨j, _, h⟩ := Option.bind_eq_some_iff.1 h
  split at h
  · next vid _ =>
    obtain ⟨_, hne, h⟩ := Option.bind_eq_some_iff.1 h
    obtain ⟨_, _, h⟩ := Option.bind_eq_some_iff.1 h
    obtain ⟨_, _, h⟩ := Option.bind_eq_some_iff.1 h
    obtain ⟨models, hmodels, h⟩ := Option.bind_eq_some_iff.1 h
    obtain ⟨arrays, _, h⟩ := Option.bind_eq_some_iff.1 h
    obtain ⟨_, hids, h⟩ := Option.bind_eq_some_iff.1 h
    obtain ⟨s, hs, h⟩ := Option.bind_eq_some_iff.1 h
    obtain rfl := Option.some.inj h
    have hne : vid ≠ "" := (Option.guard_eq_some' _).1 hne
    have hids : has_global_ids arrays.get? = true := (Option.guard_eq_some' _).1 hids
    refine ⟨get?_updated rfl, hne, hs, get?_updated rfl, fun t => ?_⟩
    refine metadata_written .voice_profile
      (get?_written (by decide) rfl) (get?_written (by decide) rfl) (get?_written (by decide) rfl)
      spark_canonical (normalise_canonical hmodels) ?_
    obtain ⟨f, hf, hget⟩ := C.arrays_savez (arrays.erase "__pair_token") t
    have hid := hget "global_ids" (by decide)
    rw [Dict.get?_erase, if_neg (by decide)] at hid
    rw [profile_payload_matches, Option.bind_some, hf]
    dsimp only
    rw [has_global_ids, hid]
    exact hids
  · cases h

theorem prepare_embedding_fit {voice_id : String} {bytes : List UInt8} {sample_rate : ℤ}
    {ref_text : Option String} {source_meta : Option Json} {model_id : Option String}
    {compatible : Option Json}
    (h : prepare_embedding C voice_id bytes sample_rate ref_text source_meta model_id compatible =
      some p) : Fit C p := by
  obtain ⟨_, hne, h⟩ := Option.bind_eq_some_iff.1 h
  obtain ⟨_, _, h⟩ := Option.bind_eq_some_iff.1 h
  obtain ⟨s, hs, h⟩ := Option.bind_eq_some_iff.1 h
  obtain ⟨model, hmodel, h⟩ := Option.bind_eq_some_iff.1 h
  obtain ⟨models, hmodels, h⟩ := Option.bind_eq_some_iff.1 h
  obtain rfl := Option.some.inj h
  have hne : voice_id ≠ "" := (Option.guard_eq_some' _).1 hne
  have hqwen : ∀ y, some qwen_base_model_id = some y → CanonicalModel y := by
    rintro y ⟨⟩
    exact qwen_canonical
  refine ⟨get?_updated rfl, hne, hs, get?_updated rfl, fun t => ?_⟩
  refine metadata_written .speaker_embedding
    (get?_written (by decide) rfl) (get?_written (by decide) rfl) (get?_written (by decide) rfl)
    (canonical_result hmodel hqwen) (normalise_canonical hmodels) ?_
  obtain ⟨f, hf, hget⟩ := C.arrays_savez
    (Dict.empty.set "speaker_embedding" ⟨bytes.length / 4, bytes⟩) t
  have hid := hget "speaker_embedding" (by decide)
  rw [Dict.get?_set, if_pos rfl] at hid
  rw [profile_payload_matches, Option.bind_some, hf]
  dsimp only
  rw [hid]
  rfl

theorem prepare_fit {r : Registration} (h : prepare C r = some p) : Fit C p := by
  cases r with
  | profile => exact prepare_profile_fit h
  | embedding => exact prepare_embedding_fit h

end

/-! ### The calls -/

section
variable {β : Type} [DecidableEq β]

/-- The calls of a process; reading is listing or loading, which recovers. -/
inductive VoiceCall (C : Contents β) where
  | register (os : Os C.codec) (t : Token) (r : Registration)
  | delete (os : Os C.codec) (t : Token) (voice_id : String)
  | read (os : Os C.codec)

/-- The directory in which a caller that has recovered makes its checks. -/
abbrev recovered_dir {C : Contents β} (os : Os C.codec) (root : Root) (d : Dir β) : Dir β :=
  ((recover_transactions os root).run d).2

inductive VoiceStep (C : Contents β) (root : Root) (d : Dir β) : VoiceCall C → Dir β → Prop where
  | register (os : Os C.codec) (t : Token) (r : Registration) (p : Prepared)
      (hp : prepare C r = some p)
      (hunused : Unused C.codec root t p.safe (.write p.json_data p.npz_arrays)
        (recovered_dir os root d)) :
      VoiceStep C root d (.register os t r) ((register os root t p).run d).2
  | delete (os : Os C.codec) (t : Token) (voice_id : String) (s : SafeId)
      (hs : safe_id voice_id = some s)
      (hunused : Unused C.codec root t s .delete (recovered_dir os root d)) :
      VoiceStep C root d (.delete os t voice_id) ((delete_voice os root t voice_id).run d).2
  | read (os : Os C.codec) : VoiceStep C root d (.read os) (recovered_dir os root d)

/-- The commit of a call is clear of the journals left behind. -/
def ClearCall (C : Contents β) (root : Root) (d : Dir β) : VoiceCall C → Prop
  | .register os _ r => ∀ p, prepare C r = some p →
      Clear C.codec root p.safe (.write p.json_data p.npz_arrays) (recovered_dir os root d)
  | .delete os _ voice_id => ∀ s, safe_id voice_id = some s →
      Clear C.codec root s .delete (recovered_dir os root d)
  | .read _ => True

variable {C : Contents β} {root : Root} {os os' : Os C.codec} {t t' : Token} {p : Prepared}
  {d d' : Dir β} {last : SafeId → Option (β × β)} {s : SafeId} {voice_id : String}

theorem Kept.after_recovery (h : Kept C.codec root last d) (os : Os C.codec) :
    Kept C.codec root last (recovered_dir os root d) := (h.recover_all_holds os).run

omit [DecidableEq β] in
theorem available_checked {json_data : Dict String Json} {npz_arrays : Dict String Arr}
    (h : safe_id_available C d voice_id s = true) : Checked d s (.write json_data npz_arrays) := by
  rw [safe_id_available] at h
  split at h
  · next hnone =>
    simp only [Bool.and_eq_true, Option.isNone_iff_eq_none] at hnone
    rw [Checked, hnone.1, hnone.2]
  · split at h
    · cases h
    · next heq => exact not_not.1 heq

/-- A profile that may be replaced is the voice's own. -/
theorem Kept.available_own (h : Kept C.codec root last d) {ab : β × β} (hab : last s = some ab)
    (havailable : safe_id_available C d voice_id s = true) :
    ∃ j, C.codec.load_json ab.1 = some j ∧ j "voice_id" = some (.str voice_id) := by
  rw [safe_id_available] at havailable
  split at havailable
  · next hnone =>
    simp only [Bool.and_eq_true, Option.isNone_iff_eq_none] at hnone
    rw [h.npz, hab] at hnone
    cases hnone.2
  · split at havailable
    · cases havailable
    · rw [h.read_json hab, Option.bind_some] at havailable
      split at havailable
      · cases havailable
      · next j hj =>
        simp only [Bool.and_eq_true, decide_eq_true_eq] at havailable
        exact ⟨j, hj, havailable.1.1.1⟩

/-- What a registration does to the last pairs: nothing, or it publishes one of its own voice. -/
theorem Kept.register_run (h : Kept C.codec root last d)
    (hunused : Unused C.codec root t p.safe (.write p.json_data p.npz_arrays) (recovered_dir os root d))
    (hclear : Clear C.codec root p.safe (.write p.json_data p.npz_arrays) (recovered_dir os root d)) :
    (((register os root t p).run d).1 ≠ some .committed ∧
        Kept C.codec root last ((register os root t p).run d).2) ∨
      (((register os root t p).run d).1 = some .committed ∧
        Kept C.codec root (Function.update last p.safe
          (published C.codec t (.write p.json_data p.npz_arrays)))
          ((register os root t p).run d).2 ∧
        ∀ ab, last p.safe = some ab →
          ∃ j, C.codec.load_json ab.1 = some j ∧ j "voice_id" = some (.str p.voice_id)) := by
  have hr := h.after_recovery os
  rw [register, Prog.run_bind, Prog.run_get_bind]
  split
  · next havailable =>
    have hkept := (hr.transaction_holds os (available_checked havailable) hunused hclear).run
    rw [Prog.run_bind]
    generalize (transaction os root t p.safe (.write p.json_data p.npz_arrays)).run
      (recovered_dir os root d) = result at hkept ⊢
    obtain ⟨out, e⟩ := result
    cases out with
    | committed => exact .inr ⟨rfl, hkept, fun ab hab => hr.available_own hab havailable⟩
    | raised => exact .inl ⟨(by intro h; cases h), hkept⟩
  · refine .inl ⟨?_, hr⟩
    show (none : Option Outcome) ≠ some .committed
    simp

omit [DecidableEq β] in
/-- The pair a registration publishes says whose it is. -/
theorem Canonical.publish (h : Canonical C last) (hp : Fit C p) (t : Token) :
    Canonical C (Function.update last p.safe
      (published C.codec t (.write p.json_data p.npz_arrays))) := by
  intro s a b hab
  by_cases hs : s = p.safe
  · subst hs
    rw [Function.update_self] at hab
    obtain ⟨rfl, rfl⟩ := Prod.mk.inj (Option.some.inj hab)
    refine ⟨_, p.voice_id, C.codec.load_dumps _, ?_, hp.nonempty, hp.safe, ?_⟩
    · rw [get?_token (by decide), hp.voice_id]
    · rw [get?_token (by decide), hp.npz_file]
  · rw [Function.update_of_ne hs] at hab
    exact h s a b hab

omit [DecidableEq β] in
theorem Canonical.delete (h : Canonical C last) (s : SafeId) :
    Canonical C (Function.update last s none) := by
  intro s' a b hab
  by_cases hs : s' = s
  · rw [hs, Function.update_self] at hab
    cases hab
  · rw [Function.update_of_ne hs] at hab
    exact h s' a b hab

/-- What a deletion does to the last pairs. -/
theorem Kept.delete_run (h : Kept C.codec root last d) (hs : safe_id voice_id = some s)
    (hunused : Unused C.codec root t s .delete (recovered_dir os root d))
    (hclear : Clear C.codec root s .delete (recovered_dir os root d)) :
    Kept C.codec root last ((delete_voice os root t voice_id).run d).2 ∨
      Kept C.codec root (Function.update last s none) ((delete_voice os root t voice_id).run d).2 := by
  have hr := h.after_recovery os
  rw [delete_voice, hs]
  dsimp only
  rw [Prog.run_bind, Prog.run_get_bind]
  split
  · exact .inl hr
  · next hsome =>
    split
    · exact .inl hr
    · next heq =>
      split
      · exact .inl hr
      · have hchecked : Checked (recovered_dir os root d) s (.delete : Operation (Dict String Arr)) := by
          have heq := not_not.1 heq
          rw [Checked, heq, and_self, ← Option.not_isNone, Bool.not_eq_true']
          rw [← Option.not_isNone, ← Option.not_isNone, Bool.not_inj_iff] at heq
          rw [heq, Bool.and_self] at hsome
          exact Bool.eq_false_iff.2 hsome
        have hkept := (hr.transaction_holds os hchecked hunused hclear).run
        rw [Prog.run_bind]
        generalize (transaction os root t s .delete).run (recovered_dir os root d) = result at hkept ⊢
        obtain ⟨out, e⟩ := result
        cases out with
        | committed => exact .inr hkept
        | raised => exact .inl hkept

end

end LocalVoice.SparkTTSVoices
