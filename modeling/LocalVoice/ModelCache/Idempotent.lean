import LocalVoice.ModelCache.Ensure

/-! A second call after an installation. The first one checks the staged tree against the manifest it
    fetched, after it wrote a `manifest.json` there; the second one checks the same tree against the
    one that was written. So the written file must meet the locks on it, and a manifest that came with
    the payload must hold of the payload too. -/

namespace LocalVoice.ModelCache
open LocalVoice.Lib

section
variable {t : FileTree File} {d : File}

/-! ### The tree with its manifest written -/

theorem exist_put {p q : Path} (h : t.exist q = true) : FileTree.exist (t.put p d) q = true := by
  unfold FileTree.exist FileTree.put at *
  rw [Dict.get?_set]
  split
  · rfl
  · exact h

theorem resolve_put (p : Path) (comps : List String) {at_dir res : List String}
    (h : resolve t at_dir comps = some res) : resolve (t.put p d) at_dir comps = some res := by
  induction comps generalizing at_dir with
  | nil => exact h
  | cons c rest ih =>
    unfold resolve at h ⊢
    split at h
    · next hdot =>
      rw [if_pos hdot]
      split at h
      · cases h
      · next hne =>
        rw [if_neg hne]
        exact ih h
    · next hdot =>
      rw [if_neg hdot]
      split at h
      · next hexist =>
        rw [if_pos (exist_put hexist)]
        exact ih h
      · cases h

theorem locate_put {p : Path} {rel : String} {comps : List String} (h : locate t rel = some comps) :
    locate (t.put p d) rel = some comps := by
  unfold locate at h ⊢
  split at h
  · cases h
  · next habs =>
    rw [if_neg habs]
    exact resolve_put p _ h

theorem to_path_manifest {comps : List String} :
    to_path comps = some manifest_path ↔ comps = ["manifest.json"] := by
  constructor
  · intro h
    cases comps with
    | nil => cases h
    | cons c rest =>
      have hpath := Option.some.inj h
      have hparents : (c :: rest).dropLast = [] := congrArg Path.parents hpath
      have hname : (c :: rest).getLast (List.cons_ne_nil c rest) = "manifest.json" :=
        congrArg Path.name hpath
      have hsplit := List.dropLast_append_getLast (List.cons_ne_nil c rest)
      rw [hparents, hname] at hsplit
      exact hsplit.symm
  · rintro rfl
    rfl

/-- A file of the tree, after the manifest was written. -/
theorem file_at_put {rel : String} {f : File} (h : file_at t rel = some f) :
    file_at (t.put manifest_path d) rel =
      some (if locate t rel = some ["manifest.json"] then d else f) := by
  simp only [file_at, Option.bind_eq_bind, Option.bind_eq_some_iff] at h ⊢
  obtain ⟨comps, hcomps, p, hp, hf⟩ := h
  refine ⟨comps, locate_put hcomps, p, hp, ?_⟩
  rw [FileTree.read_put, hcomps]
  by_cases hm : p = manifest_path
  · subst hm
    rw [if_pos rfl, if_pos (congrArg some (to_path_manifest.1 hp))]
  · rw [if_neg hm, if_neg, hf]
    intro heq
    obtain rfl := Option.some.inj heq
    exact hm (Option.some.inj hp).symm

theorem is_dir_at_put {rel : String} (h : is_dir_at t rel = true) (hno : file_at t rel = none)
    (hfile : t.is_dir manifest_path = false) : is_dir_at (t.put manifest_path d) rel = true ∧
      file_at (t.put manifest_path d) rel = none := by
  unfold is_dir_at at h ⊢
  simp only [file_at, Option.bind_eq_bind, Option.bind_eq_none_iff] at hno ⊢
  cases hcomps : locate t rel with
  | none =>
    rw [hcomps] at h
    cases h
  | some comps =>
    rw [hcomps] at h
    rw [locate_put hcomps]
    simp only at h ⊢
    cases hp : to_path comps with
    | none =>
      refine ⟨rfl, ?_⟩
      intro a ha q hq
      obtain rfl := Option.some.inj ha
      rw [hp] at hq
      cases hq
    | some p =>
      rw [hp] at h
      simp only at h ⊢
      have hm : p ≠ manifest_path := by
        rintro rfl
        rw [hfile] at h
        cases h
      refine ⟨?_, ?_⟩
      · unfold FileTree.is_dir FileTree.put at *
        rwa [Dict.get?_set, if_neg hm]
      · intro a ha q hq
        obtain rfl := Option.some.inj ha
        rw [hp] at hq
        obtain rfl := Option.some.inj hq
        rw [FileTree.read_put, if_neg hm]
        exact hno comps hcomps p hp

theorem read_sums_put : read_sums (t.put manifest_path d) = read_sums t := by
  unfold read_sums
  rw [FileTree.read_put, if_neg (by decide)]

end

/-! ### The check of the tree -/

section
variable {sha256 : List UInt8 → String} {t : FileTree File} {r : Request} {m : Manifest}
  {under_root : String → Option String}

/-- What a passed check says: the files it was for, their locks, and what is required. -/
theorem verify_ok : verify_model_files sha256 t under_root r m = .ok ↔
    id_ok r m = true ∧ ∃ sums files, read_sums t = some sums ∧ locks r m sums = some files ∧
      files.items ≠ [] ∧ (∀ e ∈ files.items, locked_file_ok sha256 t e = true) ∧
      ∀ raw ∈ r.required, required_file_ok t under_root files raw = true := by
  constructor
  · intro h
    unfold verify_model_files at h
    split at h
    · cases h
    · next hid =>
      split at h
      · cases h
      · cases h
      · next sums hfiles hsums =>
        split at h
        · cases h
        · next files hlocks =>
          split at h
          · cases h
          · next hne =>
            split at h
            · next hall =>
              obtain ⟨hlocked, hrequired⟩ := Bool.and_eq_true_iff.1 hall
              refine ⟨by simpa using hid, sums, files, hsums, hlocks, ?_,
                List.all_eq_true.1 hlocked, List.all_eq_true.1 hrequired⟩
              exact fun hnil => hne (by rw [hnil]; rfl)
            · cases h
  · rintro ⟨hid, sums, files, hsums, hlocks, hne, hlocked, hrequired⟩
    obtain ⟨mfiles, hfiles, -⟩ := Option.map_eq_some_iff.1 hlocks
    have hempty : files.items.isEmpty = false := by simpa using hne
    have hall : (files.items.all (locked_file_ok sha256 t) &&
        r.required.all (required_file_ok t under_root files)) = true :=
      Bool.and_eq_true_iff.2 ⟨List.all_eq_true.2 hlocked, List.all_eq_true.2 hrequired⟩
    unfold verify_model_files
    rw [hid, hfiles, hsums]
    simp only [Bool.not_true, Bool.false_eq_true, if_false, hlocks, hempty, hall, if_true]

/-- The check does not look at where a manifest says it came from. -/
theorem verify_source (source : Option Source) :
    verify_model_files sha256 t under_root r { m with source := source } =
      verify_model_files sha256 t under_root r m := rfl

theorem model_rel_anywhere {raw rel : String} (h : model_rel (fun _ => none) raw = some rel) :
    model_rel under_root raw = some rel := by
  unfold model_rel at h ⊢
  by_cases habs : PyText.startswith raw "/" = true
  · rw [if_pos habs] at h
    cases h
  · rw [if_neg habs] at h ⊢
    exact h

/-- What is required stays when the manifest is written, wherever the tree then is. -/
theorem required_put {d : File} {files : Dict String Lock} {raw : String}
    (hfile : t.is_dir manifest_path = false)
    (h : required_file_ok t (fun _ => none) files raw = true) :
    required_file_ok (t.put manifest_path d) under_root files raw = true := by
  unfold required_file_ok at h ⊢
  cases hmodel : model_rel (fun _ => none) raw with
  | none =>
    rw [hmodel] at h
    cases h
  | some rel =>
    rw [hmodel] at h
    rw [model_rel_anywhere hmodel]
    simp only at h ⊢
    cases hf : file_at t rel with
    | some f =>
      rw [hf] at h
      rw [file_at_put hf]
      exact h
    | none =>
      rw [hf] at h
      simp only [Option.isSome_none, Bool.false_eq_true, if_false, Bool.and_eq_true] at h
      obtain ⟨hdir, hkeys⟩ := h
      obtain ⟨hdir', hno⟩ := is_dir_at_put (d := d) hdir hf hfile
      rw [hno, hdir', hkeys]
      rfl

/-- A tree that agrees with a manifest passes the check after its manifest was written if and only
    if the written file meets the locks that lead to it. -/
theorem verify_put {d : File} (hfile : t.is_dir manifest_path = false)
    (hagrees : verify_model_files sha256 t (fun _ => none) r m = .ok) :
    verify_model_files sha256 (t.put manifest_path d) under_root r m = .ok ↔
      ∀ sums files, read_sums t = some sums → locks r m sums = some files →
        ∀ e ∈ files.items, locate t e.1 = some ["manifest.json"] → e.2.met sha256 d = true := by
  obtain ⟨hid, sums, files, hsums, hlocks, hne, hlocked, hrequired⟩ := verify_ok.1 hagrees
  have hlock : ∀ e ∈ files.items, locked_file_ok sha256 (t.put manifest_path d) e = true ↔
      (locate t e.1 = some ["manifest.json"] → e.2.met sha256 d = true) := by
    intro e he
    obtain ⟨f, hf, hmet⟩ := (Option.any_eq_true _ _).1 (hlocked e he)
    rw [locked_file_ok, file_at_put hf, Option.any_some]
    split
    · next hm => exact ⟨fun h _ => h, fun h => h hm⟩
    · next hm => exact ⟨fun _ h => absurd h hm, fun _ => hmet⟩
  rw [verify_ok, read_sums_put]
  constructor
  · rintro ⟨-, sums', files', hsums', hlocks', -, hlocked', -⟩ sums'' files'' hsums'' hlocks'' e he
    obtain rfl := Option.some.inj (hsums'.symm.trans hsums)
    obtain rfl := Option.some.inj (hsums''.symm.trans hsums)
    obtain rfl := Option.some.inj (hlocks'.symm.trans hlocks)
    obtain rfl := Option.some.inj (hlocks''.symm.trans hlocks)
    exact (hlock e he).1 (hlocked' e he)
  · intro h
    refine ⟨hid, sums, files, hsums, hlocks, hne, fun e he => ?_, fun raw hraw => ?_⟩
    · exact (hlock e he).2 (h sums files hsums hlocks e he)
    · exact required_put hfile (hrequired raw hraw)

end

/-! ### Two calls -/

theorem strip_of_strip_of (chars s : String) : strip_of chars (strip_of chars s) = strip_of chars s := by
  simp [strip_of, PyText.trim_trim]

section
variable (a : Args) (m : Manifest) (t : FileTree File)

/-- The manifest that comes with a payload, if it reads as an object. -/
def own_manifest : Option Manifest :=
  (t.read manifest_path).bind fun f => match f.json with
    | .object own => some own
    | _ => none

/-- A `manifest.json` in the payload is a file, and text. -/
def readable_manifest : Prop :=
  t.is_dir manifest_path = false ∧ ∀ f, t.read manifest_path = some f → f.json ≠ .undecodable

/-- The manifest to be stored: the payload's own one, or the published one, with the source of the
    call. -/
def to_store : Manifest := { (own_manifest t).getD m with source := some a.source }

variable {a m t}

theorem stored_manifest_iff {stored : Manifest} :
    stored_manifest a.source m t = some stored ↔ readable_manifest t ∧ stored = to_store a m t := by
  unfold stored_manifest readable_manifest to_store own_manifest FileTree.is_dir FileTree.read
  cases hnode : t.get? manifest_path with
  | none => simp [eq_comm]
  | some node =>
    cases node with
    | directory => simp
    | file f => cases hjson : f.json <;> simp [hjson, eq_comm]

/-- A stored manifest names the source of the call that stored it. -/
theorem same_source_stored : a.same_source (to_store a m t) = true := by
  simp [Args.same_source, to_store, Args.source, Json.toStr, strip_of_strip_of]

end

section
variable (sha256 : List UInt8 → String) (dumps : Manifest → List UInt8 × Option (List String))
  (under_cache : String → Option String) (a : Args) (m : Manifest) (t : FileTree File)

/-- The payload, with the manifest that the call writes. -/
def rewritten : FileTree File := t.put manifest_path (dumped dumps (to_store a m t))

/-- The rewritten `manifest.json` passes: the locks of the published manifest and of the checksum
    list that lead to it are met by what is written, and a manifest that came with the payload holds
    of the payload with the written one in its place. -/
structure Reinstallable (runtime : Runtime) : Prop where
  free : runtime ≠ .occupied
  readable : readable_manifest t
  locked : ∀ sums files, read_sums t = some sums → locks a.request m sums = some files →
    ∀ e ∈ files.items, locate t e.1 = some ["manifest.json"] →
      e.2.met sha256 (dumped dumps (to_store a m t)) = true
  own : ∀ own, own_manifest t = some own →
    verify_model_files sha256 (rewritten dumps a m t) under_cache a.request own = .ok

/-- A call on no cache succeeds, and any later one succeeds from the cache, which stays. -/
structure Idempotent (hub : Hub) (runtime : Runtime) : Prop where
  installs : (ensure_model_artifacts sha256 dumps under_cache true hub a ⟨none, runtime⟩).returned = true
  again : ∀ later enabled, ensure_model_artifacts sha256 dumps under_cache enabled later a
      (ensure_model_artifacts sha256 dumps under_cache true hub a ⟨none, runtime⟩).cache =
    ⟨(ensure_model_artifacts sha256 dumps under_cache true hub a ⟨none, runtime⟩).cache, true, false⟩

end

section
variable {sha256 : List UInt8 → String} {dumps : Manifest → List UInt8 × Option (List String)}
  {under_cache : String → Option String} {a : Args} {m : Manifest} {t : FileTree File} {hub : Hub}
  {runtime after : Runtime}

theorem materialize_eq_none : materialize runtime = none ↔ runtime = .occupied := by
  cases runtime <;> simp [materialize]

/-- What was materialized is left as it is. -/
theorem materialize_again (h : materialize runtime = some after) : materialize after = some after := by
  cases runtime <;> simp [materialize] at h <;> subst h <;> rfl

/-- On no cache, a call installs. -/
theorem ensure_empty :
    ensure_model_artifacts sha256 dumps under_cache true hub a ⟨none, runtime⟩ =
      install sha256 dumps hub a ⟨none, runtime⟩ := rfl

/-- Who gets past the cache asks the network. -/
theorem install_network (sha256 : List UInt8 → String)
    (dumps : Manifest → List UInt8 × Option (List String)) (hub : Hub) (a : Args) (c : Cache) :
    (install sha256 dumps hub a c).network = true := by
  unfold install
  cases stage sha256 hub a.request with
  | none => rfl
  | some staged =>
    simp only
    cases stored_manifest a.source staged.1 staged.2 with
    | none => rfl
    | some stored =>
      simp only
      split
      · split <;> rfl
      · rfl

/-- What a first call leaves, if it succeeds. -/
theorem install_eq (dumps : Manifest → List UInt8 × Option (List String))
    (hstage : stage sha256 hub a.request = some (m, t)) (hreadable : readable_manifest t)
    (hlink : materialize runtime = some after)
    (hverify : verify_model_files sha256 (rewritten dumps a m t) (fun _ => none) a.request m = .ok) :
    install sha256 dumps hub a ⟨none, runtime⟩ =
      ⟨⟨some (rewritten dumps a m t), after⟩, true, true⟩ := by
  have hstored : stored_manifest a.source m t = some (to_store a m t) :=
    stored_manifest_iff.2 ⟨hreadable, rfl⟩
  unfold rewritten at hverify ⊢
  simp only [install, hstage, hstored, hverify, hlink]

/-- The first call succeeds exactly if what is written passes. -/
theorem install_returned (hstage : stage sha256 hub a.request = some (m, t)) :
    (install sha256 dumps hub a ⟨none, runtime⟩).returned = true ↔
      readable_manifest t ∧ runtime ≠ .occupied ∧
        verify_model_files sha256 (rewritten dumps a m t) (fun _ => none) a.request m = .ok := by
  constructor
  · intro h
    simp only [install, hstage] at h
    split at h
    · cases h
    · next stored hstored =>
      obtain ⟨hreadable, rfl⟩ := stored_manifest_iff.1 hstored
      split at h
      · next hverify =>
        refine ⟨hreadable, ?_, hverify⟩
        rintro rfl
        cases h
      · cases h
  · rintro ⟨hreadable, hfree, hverify⟩
    obtain ⟨after, hlink⟩ := Option.ne_none_iff_exists'.1 (mt materialize_eq_none.1 hfree)
    rw [install_eq dumps hstage hreadable hlink hverify]

/-- The second call checks what the first one left against the manifest that is stored there. -/
theorem check_rewritten (hlink : materialize after = some after) :
    check_cache sha256 under_cache a ⟨some (rewritten dumps a m t), after⟩ =
      match verify_model_files sha256 (rewritten dumps a m t) under_cache a.request
        ((own_manifest t).getD m) with
      | .other_error => .raised
      | .runtime_error => .invalid
      | .ok => .valid after := by
  have hmanifest : Cache.manifest ⟨some (rewritten dumps a m t), after⟩ =
      some (rewritten dumps a m t, .object (to_store a m t)) := by
    rw [Cache.manifest, Option.bind_some, rewritten, FileTree.read_put, if_pos rfl]
    rfl
  have hverify : verify_model_files sha256 (rewritten dumps a m t) under_cache a.request
      (to_store a m t) = verify_model_files sha256 (rewritten dumps a m t) under_cache a.request
        ((own_manifest t).getD m) := verify_source _
  cases hcase : verify_model_files sha256 (rewritten dumps a m t) under_cache a.request
      ((own_manifest t).getD m) <;>
    simp only [check_cache, hmanifest, same_source_stored, Bool.not_true, Bool.false_eq_true,
      if_false, hverify, hlink, hcase]

/-- The stored manifest holds of the cache, wherever it is. -/
theorem verify_stored (hagrees : verify_model_files sha256 t (fun _ => none) a.request m = .ok)
    (h : Reinstallable sha256 dumps under_cache a m t runtime) :
    verify_model_files sha256 (rewritten dumps a m t) under_cache a.request
      ((own_manifest t).getD m) = .ok := by
  cases hown : own_manifest t with
  | some own => exact h.own own hown
  | none => exact (verify_put h.readable.1 hagrees).2 h.locked

/-- A model that agrees with its manifest and its checksum list is installed, and found again by
    every later call, if and only if the rewriting of its `manifest.json` keeps that so. -/
theorem install_idempotent (hstage : stage sha256 hub a.request = some (m, t))
    (hagrees : verify_model_files sha256 t (fun _ => none) a.request m = .ok) :
    Idempotent sha256 dumps under_cache a hub runtime ↔
      Reinstallable sha256 dumps under_cache a m t runtime := by
  constructor
  · rintro ⟨hinstalls, hagain⟩
    rw [ensure_empty] at hinstalls hagain
    obtain ⟨hreadable, hfree, hverify⟩ := (install_returned hstage).1 hinstalls
    obtain ⟨after, hlink⟩ := Option.ne_none_iff_exists'.1 (mt materialize_eq_none.1 hfree)
    refine ⟨hfree, hreadable, (verify_put hreadable.1 hagrees).1 hverify, fun own hown => ?_⟩
    have hsecond := hagain hub true
    rw [install_eq dumps hstage hreadable hlink hverify, ensure_model_artifacts,
      check_rewritten (materialize_again hlink), hown, Option.getD_some] at hsecond
    cases hcheck : verify_model_files sha256 (rewritten dumps a m t) under_cache a.request own with
    | ok => rfl
    | runtime_error =>
      -- the second call stages the model again
      rw [hcheck] at hsecond
      have hnetwork := install_network sha256 dumps hub a ⟨some (rewritten dumps a m t), after⟩
      simp only [if_true] at hsecond
      rw [hsecond] at hnetwork
      cases hnetwork
    | other_error =>
      rw [hcheck] at hsecond
      cases hsecond
  · intro h
    have hverify : verify_model_files sha256 (rewritten dumps a m t) (fun _ => none) a.request m =
      .ok := (verify_put h.readable.1 hagrees).2 h.locked
    obtain ⟨after, hlink⟩ := Option.ne_none_iff_exists'.1 (mt materialize_eq_none.1 h.free)
    have hfirst := install_eq dumps hstage h.readable hlink hverify
    refine ⟨?_, fun later enabled => ?_⟩
    · rw [ensure_empty, hfirst]
    · rw [ensure_empty, hfirst, ensure_model_artifacts, check_rewritten (materialize_again hlink),
        verify_stored hagrees h]

end

/-! ### A model with one file -/

/-- The first byte, as a digest. -/
def digit_hash (bytes : List UInt8) : String :=
  String.ofList (List.replicate 64 (Char.ofNat (48 + (bytes.headD 0).toNat)))

/-- What `json.dumps` makes of a manifest with a source. -/
def dump_nine (_ : Manifest) : List UInt8 × Option (List String) := ([9], none)

def blank_metadata : Metadata := ⟨.null, .null, .null, none, .null⟩

/-- A manifest of the file `model.bin`, locked. -/
def one_file : Manifest where
  model_id := .str "voice"
  files := .mapping [("model.bin", some { blank_metadata with sha256 := .str (digit_hash [1]) })]
  artifacts := .missing
  payload := .missing
  archive := .missing
  payload_archive := .missing
  source := none

def model_bin : Path × Node File := (⟨[], "model.bin"⟩, .file ⟨[1], none, .undecodable⟩)

def an_args : Args := ⟨⟨"voice", none, ["model.bin"]⟩, "owner/voice", "main"⟩

def one_hub (m : Manifest) (t : FileTree File) : Hub := ⟨some m, none, fun _ => some t⟩

theorem install_idempotent_one_file :
    Idempotent digit_hash dump_nine (fun _ => none) an_args
      (one_hub one_file (Dict.empty.update [model_bin])) .missing := by
  refine (install_idempotent (m := one_file) (t := Dict.empty.update [model_bin]) rfl
    (by decide +kernel)).2 ⟨by decide, ⟨by decide, fun f hf => ?_⟩, ?_, fun own hown => ?_⟩
  · cases hf
  · intro sums files hsums hfiles e he hlead
    have hnowhere : ∀ e ∈ ((locks an_args.request one_file sums).getD Dict.empty).items,
        locate (Dict.empty.update [model_bin]) e.1 ≠ some ["manifest.json"] := by
      obtain rfl := Option.some.inj hsums
      decide +kernel
    rw [hfiles] at hnowhere
    exact absurd hlead (hnowhere e he)
  · cases hown

/-- A line of `SHA256SUMS`. -/
def digest_line (bytes : List UInt8) (name : String) : String := digit_hash bytes ++ "  " ++ name

/-- The checksum list of the model names the published `manifest.json` too. -/
def listed : FileTree File := Dict.empty.update [model_bin,
  (manifest_path, .file ⟨[2], none, .object one_file⟩),
  (sums_path, .file ⟨[3], some [digest_line [1] "model.bin", digest_line [2] "manifest.json"], .invalid⟩)]

/-- A manifest that leaves the locks to the checksum list. -/
def no_locks : Manifest := { one_file with files := .missing }

/-- The staged `manifest.json` gets its source before the files are checked. -/
theorem listed_manifest_fails : ¬ ∀ (a : Args) (m : Manifest) (t : FileTree File) (hub : Hub),
    stage digit_hash hub a.request = some (m, t) →
    verify_model_files digit_hash t (fun _ => none) a.request m = .ok → readable_manifest t →
    Idempotent digit_hash dump_nine (fun _ => none) a hub .missing := by
  intro hall
  have hinstalls := (hall an_args no_locks listed (one_hub no_locks listed) rfl (by decide +kernel)
    ⟨by decide, fun f hf => ?_⟩).installs
  · revert hinstalls
    decide +kernel
  · obtain rfl := Option.some.inj hf
    exact Parsed.noConfusion

end LocalVoice.ModelCache
