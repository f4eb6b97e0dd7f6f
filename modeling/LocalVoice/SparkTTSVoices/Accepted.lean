import LocalVoice.SparkTTSVoices.VoiceCalls

/-! An accepted registration in a run of calls: what is listed and loaded in the directory it leaves,
    beside what was listed and loaded before it, and the deletion of the voice. -/

namespace LocalVoice.SparkTTSVoices
open LocalVoice.Lib

section
variable {β : Type} [DecidableEq β] {C : Contents β} {root : Root} {os os' : Os C.codec}
  {t t' : Token} {p : Prepared} {d d' d₀ : Dir β} {last last' : SafeId → Option (β × β)}
  {s : SafeId} {voice_id : String} {calls : List (VoiceCall C)}

/-! ### Runs -/

/-- What a reader finds once it has recovered: last pairs that say whose they are. -/
def Owned (C : Contents β) (root : Root) (d : Dir β) : Prop :=
  ∃ last, Kept C.codec root last d ∧ Canonical C last

theorem Owned.step {call : VoiceCall C} (h : Owned C root d)
    (hstep : restrict (ClearCall C root) (VoiceStep C root) d call d') : Owned C root d' := by
  obtain ⟨last, hk, hc⟩ := h
  obtain ⟨hclear, hstep⟩ := hstep
  cases hstep with
  | register os t r p hp hunused =>
    rcases hk.register_run hunused (hclear p hp) with ⟨-, hk'⟩ | ⟨-, hk', -⟩
    · exact ⟨last, hk', hc⟩
    · exact ⟨_, hk', hc.publish (prepare_fit hp) t⟩
  | delete os t voice_id s hs hunused =>
    rcases hk.delete_run hs hunused (hclear s hs) with hk' | hk'
    · exact ⟨last, hk', hc⟩
    · exact ⟨_, hk', hc.delete s⟩
  | read os => exact ⟨last, hk.after_recovery os, hc⟩

theorem Owned.run (hrest : AtRest d₀) (hcanonical : Canonical C (pair_files d₀))
    (hrun : Run (restrict (ClearCall C root) (VoiceStep C root)) d₀ calls d) : Owned C root d :=
  hrun.invariant (I := Owned C root) (fun h hstep => h.step hstep)
    ⟨_, hrest.kept fun _ => rfl, hcanonical⟩

/-! ### What the calls return -/

theorem list_voices_run (os : Os C.codec) (root : Root) (f : Filters) (d : Dir β) :
    ((list_voices os root f).run d).1 =
      list_from_disk C (recovered_dir os root (recovered_dir os root d)) f := by
  rw [list_voices, Prog.run_bind, Prog.run_bind, Prog.run_get_bind]
  rfl

theorem load_run (os : Os C.codec) (root : Root) {voice_id : String} (model_id : Option String)
    (d : Dir β) (h : voice_id ≠ "") :
    ((load_embedding_voice os root voice_id model_id).run d).1 =
      embedding_of C (recovered_dir os root d) voice_id model_id := by
  rw [load_embedding_voice, if_neg h, Prog.run_bind, Prog.run_get_bind]
  rfl

omit [DecidableEq β] in
/-- Nothing is loaded of a voice without a file id. -/
theorem embedding_no_file (hs : safe_id voice_id = none) (model_id : Option String) :
    embedding_of C d voice_id model_id = none := by
  rw [embedding_of, hs]
  rfl

theorem Kept.entries_unsafe (h : Kept C.codec root last d) (hc : Canonical C last) (f : Filters)
    (hs : safe_id voice_id = none) : entries_of voice_id (list_from_disk C d f) = [] := by
  rw [entries_of, list_from_disk, List.filter_filter, List.filter_eq_nil_iff]
  intro e he hp
  obtain ⟨n, hn, hlisted⟩ := List.mem_filterMap.1 he
  obtain ⟨s, rfl, -, hsome⟩ := h.mem_listed.1 ((Finset.mem_sort _).1 hn)
  obtain ⟨vid, hvid, hsafe⟩ := h.listed_id hc hlisted hsome
  rw [Bool.and_eq_true, decide_eq_true_eq, hvid] at hp
  obtain rfl := Json.str.inj hp.1
  rw [hs] at hsafe
  cases hsafe

/-- The entries of a voice whose last pair is the same are the same. -/
theorem Kept.entries_congr (h : Kept C.codec root last d) (h' : Kept C.codec root last' d')
    (hc : Canonical C last) (hc' : Canonical C last') (f : Filters)
    (hsame : ∀ s, safe_id voice_id = some s → last s = last' s) :
    entries_of voice_id (list_from_disk C d f) = entries_of voice_id (list_from_disk C d' f) := by
  cases hs : safe_id voice_id with
  | none => rw [h.entries_unsafe hc f hs, h'.entries_unsafe hc' f hs]
  | some s =>
    rw [h.entries hc f hs, h'.entries hc' f hs, hsame s hs]
    split
    · next hshown =>
      rw [h.listed_congr h' hc (hsame s hs) (by rw [hsame s hs]; exact hshown.2)]
    · rfl

/-- A profile is no entry of another voice with its file id. -/
theorem Kept.entries_other (h : Kept C.codec root last d) (hc : Canonical C last) (f : Filters)
    (hs : safe_id voice_id = some s) {ab : β × β} (hab : last s = some ab)
    {j : String → Option Json} {owner : String} (hj : C.codec.load_json ab.1 = some j)
    (howner : j "voice_id" = some (.str owner)) (hne : owner ≠ "") (hother : voice_id ≠ owner) :
    entries_of voice_id (list_from_disk C d f) = [] := by
  rw [h.entries hc f hs]
  split
  · rw [List.filter_eq_nil_iff]
    intro e he hp
    have hid := h.listed_voice hab hj howner hne (Option.mem_toList.1 he)
    rw [Bool.and_eq_true, decide_eq_true_eq, hid] at hp
    exact hother (Json.str.inj hp.2).symm
  · rfl

/-! ### The voice that was registered -/

omit [DecidableEq β] in
/-- Without a filter every entry passes. -/
theorem admits_all (e : Entry) : (⟨none, none, none⟩ : Filters).admits e = true := rfl

/-- A pair that a registration has written is an entry. -/
theorem Kept.listed_published (h : Kept C.codec root last d) (hp : Fit C p)
    (hlast : last p.safe = published C.codec t (.write p.json_data p.npz_arrays)) :
    ∃ e, listed C d (json_name p.safe) = some e := by
  obtain ⟨m, hm⟩ := hp.metadata t.val
  have hnpz : read d (npz_name p.safe) = some (new_npz C.codec t p.npz_arrays) := by
    rw [h.read_npz, hlast]
    rfl
  have hjson : (read d (json_name p.safe)).bind C.codec.load_json =
      some (p.json_data.set "__pair_token" (.str t.val)).get? := by
    rw [h.read_json hlast, Option.bind_some]
    exact C.codec.load_dumps _
  have hname : field_or (some (Json.str (npz_name p.safe))) (stem (json_name p.safe) ++ ".npz") =
      .str (npz_name p.safe) := by
    simp [field_or, Json.truthy, (npz_entry p.safe).2.1]
  have htoken : json_pair_token (p.json_data.set "__pair_token" (.str t.val)).get? = some t.val := by
    rw [json_pair_token, Dict.get?_set, if_pos rfl]
    rfl
  have hmatch : pair_token_matches C (p.json_data.set "__pair_token" (.str t.val)).get?
      (some (new_npz C.codec t p.npz_arrays)) = true := by
    rw [pair_token_matches, Option.bind_some, new_npz, C.codec.token_savez]
    dsimp only
    rw [htoken, decide_eq_true rfl]
  rw [listed, hjson]
  dsimp only
  rw [get?_token (by decide), hp.npz_file, hname]
  dsimp only
  rw [if_neg (npz_entry p.safe).1, hnpz, hmatch, Bool.not_true, if_neg Bool.false_ne_true, new_npz, hm]
  exact ⟨_, rfl⟩

omit [DecidableEq β] in
/-- The owner of a published pair. -/
theorem Fit.owner (hp : Fit C p) (t : Token) : ∃ j,
    C.codec.load_json (new_json C.codec t p.json_data) = some j ∧
      j "voice_id" = some (.str p.voice_id) :=
  ⟨_, C.codec.load_dumps _, by rw [get?_token (by decide), hp.voice_id]⟩

/-- A registered voice is listed once, unless its file is hidden. -/
theorem Kept.entries_published (h : Kept C.codec root last d) (hc : Canonical C last) (hp : Fit C p)
    (hlast : last p.safe = published C.codec t (.write p.json_data p.npz_arrays)) :
    (entries_of p.voice_id (list_from_disk C d ⟨none, none, none⟩)).length =
      if p.safe.hidden then 0 else 1 := by
  obtain ⟨e, he⟩ := h.listed_published hp hlast
  obtain ⟨j, hj, howner⟩ := hp.owner t
  have hid := h.listed_voice hlast hj howner hp.nonempty he
  have hsome : (last p.safe).isSome = true := by
    rw [hlast]
    rfl
  rw [h.entries hc _ hp.safe, he, hsome]
  cases p.safe.hidden with
  | false => simp [admits_all, hid]
  | true => rfl

/-! ### Without failures -/

theorem commit_commits (os : Os C.codec) (hfine : ∀ d n, os.commit_fails d n = false)
    (name₁ name₂ : String) (step₁ step₂ : Dir β → Dir β) (d : Dir β) :
    (commit os root t name₁ name₂ step₁ step₂).Holds (fun _ => True)
      (fun out _ => out = .committed) d := by
  refine Prog.holds_bind (Prog.holds_get trivial ?_)
  rw [if_neg (by simp [hfine])]
  refine Prog.holds_bind (Prog.holds_step trivial trivial ?_)
  refine Prog.holds_bind (Prog.holds_get trivial ?_)
  rw [if_neg (by simp [hfine])]
  refine Prog.holds_bind (Prog.holds_step trivial trivial ?_)
  exact Prog.holds_bind ((Prog.holds_trivial _ _).mono (fun _ _ => trivial)
    fun _ _ _ => ⟨trivial, rfl⟩)

theorem delete_commits (os : Os C.codec) (root : Root) (s : SafeId)
    (hfine : ∀ d n, os.commit_fails d n = false) (hfree : d.lookup (txdir_name t) = none) {a b : β}
    (hjson : read d (json_name s) = some a) (hnpz : read d (npz_name s) = some b) :
    (transaction os root t s .delete).Holds (fun _ => True) (fun out _ => out = .committed) d := by
  refine Prog.holds_bind (Prog.holds_get trivial ?_)
  rw [if_neg (by simp [hfree]), hjson, hnpz]
  refine Prog.holds_bind (Prog.holds_step trivial trivial ?_)
  refine Prog.holds_bind ((Prog.holds_trivial _ _).mono (fun _ _ => trivial) fun _ _ _ => ?_)
  refine Prog.holds_bind ((Prog.holds_trivial _ _).mono (fun _ _ => trivial) fun _ e _ => ?_)
  exact commit_commits os hfine _ _ _ _ e

theorem write_commits (os : Os C.codec) (root : Root) (s : SafeId)
    (hfine : ∀ d n, os.commit_fails d n = false) (hfree : d.lookup (txdir_name t) = none)
    (json_data : Dict String Json) (npz_arrays : Dict String Arr) :
    (transaction os root t s (.write json_data npz_arrays)).Holds (fun _ => True)
      (fun out _ => out = .committed) d := by
  refine Prog.holds_bind (Prog.holds_get trivial ?_)
  rw [if_neg (by simp [hfree])]
  refine Prog.holds_bind (Prog.holds_step trivial trivial ?_)
  -- the old pair is copied if there is one
  have hfill : ∀ e, (do
      write_in os (txdir_name t) "new.json" (new_json C.codec t json_data)
      write_in os (txdir_name t) "new.npz" (new_npz C.codec t npz_arrays)
      write_file os (journal_name t)
        (C.codec.dumps (journal_data root t s "write" (pair_files d s).isSome))
      commit os root t (npz_name s) (json_name s)
        (replace_from (txdir_name t) "new.npz" (npz_name s) (new_npz C.codec t npz_arrays))
        (replace_from (txdir_name t) "new.json" (json_name s) (new_json C.codec t json_data))
          ).Holds (fun _ => True) (fun out _ => out = Outcome.committed) e := by
    intro e
    refine Prog.holds_bind ((Prog.holds_trivial _ _).mono (fun _ _ => trivial) fun _ _ _ => ?_)
    refine Prog.holds_bind ((Prog.holds_trivial _ _).mono (fun _ _ => trivial) fun _ _ _ => ?_)
    refine Prog.holds_bind ((Prog.holds_trivial _ _).mono (fun _ _ => trivial) fun _ e _ => ?_)
    exact commit_commits os hfine _ _ _ _ e
  dsimp only
  split
  · exact Prog.holds_bind ((Prog.holds_trivial _ _).mono (fun _ _ => trivial) fun _ e _ => hfill e)
  · exact hfill _

/-- A registration that is available commits. -/
theorem register_commits (os : Os C.codec) (hfine : ∀ d n, os.commit_fails d n = false)
    (hfree : (recovered_dir os root d).lookup (txdir_name t) = none)
    (havailable : safe_id_available C (recovered_dir os root d) p.voice_id p.safe = true) :
    ((register os root t p).run d).1 = some .committed := by
  have hcommits := (write_commits os root p.safe hfine hfree p.json_data p.npz_arrays).run
  rw [register, Prog.run_bind, Prog.run_get_bind, if_pos havailable, Prog.run_bind, hcommits]
  rfl

/-- A voice with a pair of its own is deleted. -/
theorem Kept.delete_deletes (h : Kept C.codec root last d) (os : Os C.codec)
    (hfine : ∀ d n, os.commit_fails d n = false)
    (hfree : (recovered_dir os root d).lookup (txdir_name t) = none)
    (hs : safe_id voice_id = some s) {ab : β × β} (hab : last s = some ab)
    {j : String → Option Json} (hj : C.codec.load_json ab.1 = some j)
    (howner : j "voice_id" = some (.str voice_id)) :
    ((delete_voice os root t voice_id).run d).1 = .deleted := by
  have hr := h.after_recovery os
  have hjson := hr.read_json hab
  have hnpz : read (recovered_dir os root d) (npz_name s) = some ab.2 := by
    rw [hr.read_npz, hab]
    rfl
  have howned : owned_by C (recovered_dir os root d) voice_id s = true := by
    rw [owned_by, hjson, Option.bind_some, hj, Option.bind_some, howner, decide_eq_true rfl]
  rw [delete_voice, hs]
  dsimp only
  rw [Prog.run_bind, Prog.run_get_bind]
  rw [read_eq_some] at hjson hnpz
  rw [if_neg (by simp [hjson]), if_neg (by simp [hjson, hnpz]), if_neg (by simp [howned])]
  have hcommits := (delete_commits os root s hfine hfree (read_eq_some.2 hjson)
    (read_eq_some.2 hnpz)).run
  rw [Prog.run_bind, hcommits]
  rfl

/-! ### Accepted registrations -/

/-- What is promised of an accepted registration, between the directories before and after it. -/
structure Separate (C : Contents β) (root : Root) (p : Prepared) (d d' : Dir β) : Prop where
  listed_once : ∀ os : Os C.codec,
    (entries_of p.voice_id ((list_voices os root ⟨none, none, none⟩).run d').1).length = 1
  deletable : ∀ (os : Os C.codec) (t : Token), (∀ d n, os.commit_fails d n = false) →
    (recovered_dir os root d').lookup (txdir_name t) = none →
      ((delete_voice os root t p.voice_id).run d').1 = .deleted
  listing : ∀ (os os' : Os C.codec) (voice_id : String) (f : Filters), voice_id ≠ p.voice_id →
    entries_of voice_id ((list_voices os' root f).run d').1 =
      entries_of voice_id ((list_voices os root f).run d).1
  loading : ∀ (os os' : Os C.codec) (voice_id : String) (model_id : Option String),
    voice_id ≠ p.voice_id → ((load_embedding_voice os' root voice_id model_id).run d').1 =
      ((load_embedding_voice os root voice_id model_id).run d).1

/-- The last pairs before and after an accepted registration. -/
structure Accepted (C : Contents β) (root : Root) (t : Token) (p : Prepared)
    (last : SafeId → Option (β × β)) (d d' : Dir β) : Prop where
  fit : Fit C p
  before : Kept C.codec root last d
  canonical : Canonical C last
  after : Kept C.codec root (Function.update last p.safe
    (published C.codec t (.write p.json_data p.npz_arrays))) d'
  own : ∀ ab, last p.safe = some ab →
    ∃ j, C.codec.load_json ab.1 = some j ∧ j "voice_id" = some (.str p.voice_id)

section
variable (h : Accepted C root t p last d d')
include h

theorem Accepted.listed_length (os : Os C.codec) :
    (entries_of p.voice_id ((list_voices os root ⟨none, none, none⟩).run d').1).length =
      if p.safe.hidden then 0 else 1 := by
  rw [list_voices_run]
  exact ((h.after.after_recovery os).after_recovery os).entries_published
    (h.canonical.publish h.fit t) h.fit (Function.update_self ..)

theorem Accepted.deletable (os : Os C.codec) (hfine : ∀ d n, os.commit_fails d n = false)
    (hfree : (recovered_dir os root d').lookup (txdir_name t') = none) :
    ((delete_voice os root t' p.voice_id).run d').1 = .deleted := by
  obtain ⟨j, hj, howner⟩ := h.fit.owner t
  exact h.after.delete_deletes os hfine hfree h.fit.safe (Function.update_self ..) hj howner

theorem Accepted.listing (os os' : Os C.codec) (f : Filters) (hother : voice_id ≠ p.voice_id) :
    entries_of voice_id ((list_voices os' root f).run d').1 =
      entries_of voice_id ((list_voices os root f).run d).1 := by
  have hbefore := (h.before.after_recovery os).after_recovery os
  have hafter := (h.after.after_recovery os').after_recovery os'
  have hcanonical := h.canonical.publish h.fit t
  rw [list_voices_run, list_voices_run]
  by_cases hs : safe_id voice_id = some p.safe
  · -- the file is the registered voice's own, before and after
    obtain ⟨j, hj, howner⟩ := h.fit.owner t
    rw [hafter.entries_other hcanonical f hs (Function.update_self ..) hj howner h.fit.nonempty
      hother]
    cases hlast : last p.safe with
    | none =>
      rw [hbefore.entries h.canonical f hs, hlast, if_neg (by simp)]
    | some ab =>
      obtain ⟨j, hj, howner⟩ := h.own ab hlast
      rw [hbefore.entries_other h.canonical f hs hlast hj howner h.fit.nonempty hother]
  · refine (hbefore.entries_congr hafter h.canonical hcanonical f fun s hs' => ?_).symm
    rw [Function.update_of_ne]
    rintro rfl
    exact hs hs'

theorem Accepted.loading (os os' : Os C.codec) (model_id : Option String)
    (hother : voice_id ≠ p.voice_id) :
    ((load_embedding_voice os' root voice_id model_id).run d').1 =
      ((load_embedding_voice os root voice_id model_id).run d).1 := by
  have hbefore := h.before.after_recovery os
  have hafter := h.after.after_recovery os'
  by_cases hempty : voice_id = ""
  · rw [load_embedding_voice, load_embedding_voice, if_pos hempty, if_pos hempty]
    rfl
  · rw [load_run os' root model_id d' hempty, load_run os root model_id d hempty]
    cases hs : safe_id voice_id with
    | none => rw [embedding_no_file hs, embedding_no_file hs]
    | some s =>
      by_cases hsame : s = p.safe
      · subst hsame
        obtain ⟨j, hj, howner⟩ := h.fit.owner t
        have hstranger : ∀ {j : String → Option Json}, j "voice_id" = some (.str p.voice_id) →
            j "voice_id" ≠ some (.str voice_id) := fun howner he =>
          hother (Json.str.inj (Option.some.inj (he.symm.trans howner)))
        rw [hafter.embedding_other model_id hs (Function.update_self ..) hj (hstranger howner)]
        cases hlast : last p.safe with
        | none => rw [hbefore.embedding_none model_id hs hlast]
        | some ab =>
          obtain ⟨j, hj, howner⟩ := h.own ab hlast
          rw [hbefore.embedding_other model_id hs hlast hj (hstranger howner)]
      · exact hafter.embedding_congr hbefore model_id hs (Function.update_of_ne hsame ..)

/-- All but the listing holds of every accepted registration, the listing of a voice that is shown. -/
theorem Accepted.separate (os : Os C.codec) :
    Separate C root p d d' ↔ p.safe.hidden = false := by
  constructor
  · intro hsep
    have honce := hsep.listed_once os
    rw [h.listed_length os] at honce
    by_contra hhidden
    rw [if_pos (Bool.not_eq_false _ ▸ hhidden)] at honce
    cases honce
  · intro hshown
    refine ⟨fun os => ?_, fun os _ hfine hfree => h.deletable os hfine hfree,
      fun os os' _ f hother => h.listing os os' f hother,
      fun os os' _ model_id hother => h.loading os os' model_id hother⟩
    rw [h.listed_length os, hshown]
    rfl

end

/-- In every run whose commits avoid the journals left behind, an accepted registration of such a
    commit is visible and separate exactly if its file is not hidden. -/
theorem accepted_separate (hrest : AtRest d₀) (hcanonical : Canonical C (pair_files d₀))
    (hrun : Run (restrict (ClearCall C root) (VoiceStep C root)) d₀ calls d) {r : Registration}
    (hp : prepare C r = some p)
    (hunused : Unused C.codec root t p.safe (.write p.json_data p.npz_arrays)
      (recovered_dir os root d))
    (hclear : Clear C.codec root p.safe (.write p.json_data p.npz_arrays) (recovered_dir os root d))
    (haccepted : ((register os root t p).run d).1 = some .committed) :
    Separate C root p d ((register os root t p).run d).2 ↔ p.safe.hidden = false := by
  obtain ⟨last, hk, hc⟩ := Owned.run hrest hcanonical hrun
  rcases hk.register_run hunused hclear with ⟨hne, -⟩ | ⟨-, hafter, hown⟩
  · exact absurd haccepted hne
  · have h : Accepted C root t p last d ((register os root t p).run d).2 :=
      ⟨prepare_fit hp, hk, hc, hafter, hown⟩
    exact h.separate os

end

/-! ### Two registrations -/

namespace Sample

/-- Files that say what they read as, archives with their arrays. -/
inductive Stored where
  | object (items : List (String × Json))
  | archive (arrays : List (String × Arr)) (token : String)
  | torn
  deriving DecidableEq

def stored_codec : Codec Stored (Dict String Arr) where
  load_json
    | .object items => some fun k => items.lookup k
    | _ => none
  npz_token
    | .archive _ token => some (some token)
    | _ => none
  dumps data := .object data.items
  savez arrays token := .archive arrays.items token
  load_dumps _ := rfl
  token_savez _ _ := rfl

/-- A list of texts as one text: a stroke before each character, a comma behind each text. -/
def print_list (l : List String) : List Char :=
  l.flatMap fun x => (x.toList.flatMap fun ch => ['/', ch]) ++ [',']

def scan_list : List Char → Bool → List Char → Option (List String)
  | [], _, _ => some []
  | ch :: rest, true, text => scan_list rest false (text ++ [ch])
  | ch :: rest, false, text =>
    if ch = ',' then (scan_list rest false []).map (String.ofList text :: ·)
    else scan_list rest true text

theorem scan_text (l : List Char) (rest text : List Char) :
    scan_list ((l.flatMap fun ch => ['/', ch]) ++ ',' :: rest) false text =
      (scan_list rest false []).map (String.ofList (text ++ l) :: ·) := by
  induction l generalizing text with
  | nil =>
    rw [List.flatMap_nil, List.nil_append, scan_list, if_pos rfl, List.append_nil]
  | cons ch l ih =>
    rw [List.flatMap_cons, List.append_assoc, List.cons_append, scan_list, if_neg (by decide)]
    exact (ih (text ++ [ch])).trans (by rw [List.append_assoc, List.singleton_append])

theorem scan_print (l : List String) : scan_list (print_list l) false [] = some l := by
  induction l with
  | nil => rfl
  | cons x l ih =>
    have hcons : print_list (x :: l) =
        (x.toList.flatMap fun ch => ['/', ch]) ++ ',' :: print_list l := by
      simp [print_list]
    rw [hcons, scan_text, ih, List.nil_append, String.ofList_toList]
    rfl

def contents : Contents Stored where
  codec := stored_codec
  items
    | .other printed _ => (scan_list printed.toList false []).map (·.map Json.str)
    | _ => none
  of_list l := .other (String.ofList (print_list l)) !l.isEmpty
  items_of_list l := by
    simp only [String.toList_ofList, scan_print, Option.map_some]
  arrays
    | .archive arrays _ => some fun key => arrays.lookup key
    | _ => none
  arrays_savez arrays _ := ⟨arrays.get?, rfl, fun _ _ => rfl⟩

/-- Nothing fails. -/
def stored_os : Os contents.codec where
  scan := listing
  mem_scan := mem_listing
  mkstemp d := ".rollback-" ++ String.ofList ((listing d.keys).flatMap String.toList) ++ ".tmp"
  mkstemp_name d := by
    rw [is_tmp_name, PyText.endswith_append, String.append_assoc, PyText.startswith_append]
    rfl
  mkstemp_new d h := longer_new d.keys (Finmap.mem_keys.2 h)
  part _ := .torn
  part_dumps _ := rfl
  cleanup_fails _ _ := none
  commit_fails _ _ := false

/-- The registration of a one-dimensional vector. -/
def vector (voice_id : String) : Registration :=
  .embedding voice_id [0, 0, 128, 63] 24000 none none none none

/-- What the registration writes. -/
def written (voice_id : String) (s : SafeId) : Prepared where
  voice_id := voice_id
  safe := s
  json_data := Dict.update .empty
    [("voice_id", .str voice_id), ("npz_file", .str (npz_name s)),
      ("profile_type", .str "speaker_embedding"), ("model_id", .str "qwen3-tts-0.6b-base"),
      ("compatible_models", contents.of_list ["qwen3-tts-0.6b-base"]), ("embedding_dim", .int 1),
      ("embedding_dtype", .str "float32"), ("sample_rate", .int 24000), ("ref_text", .null),
      ("source_meta", .null)]
  npz_arrays := Dict.empty.set "speaker_embedding" ⟨1, [0, 0, 128, 63]⟩

theorem prepare_vector {voice_id : String} {s : SafeId} (hne : voice_id ≠ "")
    (hs : safe_id voice_id = some s) :
    prepare contents (vector voice_id) = some (written voice_id s) := by
  have hmodel : canonical_model_id none (some qwen_base_model_id) = some qwen_base_model_id := rfl
  rw [vector, prepare, prepare_embedding]
  simp only [Option.map_none, hmodel, hs]
  simp [guard, hne, written]
  rfl

theorem unnamed (voice_id : String) (s : SafeId) (t : Token) :
    ¬ NamesTx (written voice_id s).json_data.get? t := not_names rfl rfl

/-- In the empty directory a token is unused. -/
theorem empty_unused {voice_id : String} {s : SafeId} (t : Token) (h : s.val ≠ txdir_name t) :
    Unused contents.codec root t s
      (.write (written voice_id s).json_data (written voice_id s).npz_arrays) ∅ := by
  refine ⟨⟨rfl, rfl, h, ?_, ?_, ?_⟩, ?_⟩
  · rintro n b data ⟨⟩
  · rintro n b ⟨⟩
  · rintro _ _ ⟨⟩
    exact unnamed voice_id s t
  · rintro n b data ⟨⟩

theorem empty_recovered : recovered_dir stored_os root ∅ = ∅ := rfl

def hidden_anna : SafeId := ⟨".anna", by decide⟩

theorem hidden_unused : Unused contents.codec root first (written ".anna" hidden_anna).safe
    (.write (written ".anna" hidden_anna).json_data (written ".anna" hidden_anna).npz_arrays)
    (recovered_dir stored_os root ∅) := empty_unused first (by decide)

theorem empty_clear {s : SafeId} {op : Operation (Dict String Arr)} :
    Clear contents.codec root s op ∅ := by
  refine ⟨?_, fun _ _ _ _ _ _ => rfl⟩
  rintro m jr es - ⟨-, ⟨⟩⟩

theorem empty_registered (voice_id : String) (s : SafeId) (t : Token) :
    ((register stored_os root t (written voice_id s)).run ∅).1 = some .committed := by
  refine register_commits stored_os (fun _ _ => rfl) ?_ ?_
  · rw [empty_recovered, Finmap.lookup_empty]
  · rw [empty_recovered, safe_id_available, if_pos]
    rfl

end Sample

/-- The voice is registered in the empty directory. -/
theorem accepted_separate_anna : Separate Sample.contents Sample.root
    (Sample.written "clone:anna" Sample.anna) ∅
    ((register Sample.stored_os Sample.root Sample.first
      (Sample.written "clone:anna" Sample.anna)).run ∅).2 :=
  (accepted_separate at_rest_empty nofun .nil
    (Sample.prepare_vector (by decide) (by decide))
    (Sample.empty_unused Sample.first (by decide)) Sample.empty_clear
    (Sample.empty_registered ..)).2 (by decide)

/-- The file of the voice is `.anna.json`, which the scan passes over. -/
theorem hidden_voice_unlisted : ¬ ∀ (calls : List (VoiceCall Sample.contents))
    (d : Dir Sample.Stored) (os : Os Sample.contents.codec) (t : Token) (r : Registration)
    (p : Prepared), Run (VoiceStep Sample.contents Sample.root) ∅ calls d →
      prepare Sample.contents r = some p →
        Unused Sample.contents.codec Sample.root t p.safe (.write p.json_data p.npz_arrays)
          (recovered_dir os Sample.root d) →
          ((register os Sample.root t p).run d).1 = some .committed →
            Separate Sample.contents Sample.root p d ((register os Sample.root t p).run d).2 := by
  intro h
  have hp : prepare Sample.contents (Sample.vector ".anna") =
      some (Sample.written ".anna" Sample.hidden_anna) := Sample.prepare_vector (by decide) (by decide)
  have hunused := Sample.hidden_unused
  have hseparate := h [] ∅ Sample.stored_os Sample.first (Sample.vector ".anna") _ .nil hp hunused
    (Sample.empty_registered ..)
  have honce := hseparate.listed_once Sample.stored_os
  have hk : Kept Sample.contents.codec Sample.root (pair_files ∅) ∅ :=
    at_rest_empty.kept fun _ => rfl
  rcases hk.register_run hunused Sample.empty_clear with ⟨hne, -⟩ | ⟨-, hafter, hown⟩
  · exact hne (Sample.empty_registered ..)
  · have haccepted : Accepted Sample.contents Sample.root Sample.first _ _ ∅ _ :=
      ⟨prepare_fit hp, hk, nofun, hafter, hown⟩
    rw [haccepted.listed_length Sample.stored_os] at honce
    revert honce
    decide

end LocalVoice.SparkTTSVoices
