import LocalVoice.ModelCache.Manifest

/-! The names of a manifest's files in `server/core/qwen3_artifact_downloader.py`. A manifest writes the
    path of a file as it stands in the model, or with a prefix for the model in front. `manifest_rel`
    drops the dots and slashes it begins with, then a prefix for the model id, then one for the
    canonical id; what is left names the file as long as none of the three takes something of the
    file's own path (`manifest_paths`). -/

namespace LocalVoice.ModelCache
open LocalVoice.Lib

/-! ### The components of a path -/

theorem startswith_iff {s p : String} : PyText.startswith s p = true ↔ ∃ t, s = p ++ t := by
  constructor
  · intro h
    rw [PyText.startswith, List.isPrefixOf_iff_prefix] at h
    obtain ⟨t, ht⟩ := h
    exact ⟨String.ofList t, String.toList_inj.1 (by rw [String.toList_append, String.toList_ofList, ht])⟩
  · rintro ⟨t, rfl⟩
    exact PyText.startswith_append p t

theorem drop_front (p t : String) : String.ofList ((p ++ t).toList.drop p.length) = t := by
  rw [String.toList_append, ← String.length_toList, List.drop_left, String.ofList_toList]

/-- The words of a text between its slashes. -/
def words (l : List Char) : List (List Char) :=
  l.foldr (fun c words => match words with
    | w :: ws => if c = '/' then [] :: w :: ws else (c :: w) :: ws
    | [] => []) [[]]

theorem parts_eq (s : String) :
    Path.parts s = ((words s.toList).map String.ofList).filter fun c => c ≠ "" && c ≠ "." := rfl

theorem words_cons (c : Char) (l : List Char) : ∃ w ws, words l = w :: ws ∧
    words (c :: l) = if c = '/' then [] :: w :: ws else (c :: w) :: ws := by
  have hne : ∀ l, ∃ w ws, words l = w :: ws := by
    intro l
    induction l with
    | nil => exact ⟨[], [], rfl⟩
    | cons c l ih =>
      obtain ⟨w, ws, h⟩ := ih
      rw [words, List.foldr_cons, ← words, h]
      dsimp only
      split
      · exact ⟨[], w :: ws, rfl⟩
      · exact ⟨c :: w, ws, rfl⟩
  obtain ⟨w, ws, h⟩ := hne l
  refine ⟨w, ws, h, ?_⟩
  rw [words, List.foldr_cons, ← words, h]

theorem words_join (l m : List Char) : words (l ++ '/' :: m) = words l ++ words m := by
  induction l with
  | nil =>
    obtain ⟨w, ws, h, hcons⟩ := words_cons '/' m
    rw [List.nil_append, hcons, if_pos rfl, h]
    rfl
  | cons c l ih =>
    obtain ⟨w, ws, h, hcons⟩ := words_cons c l
    obtain ⟨w', ws', h', hcons'⟩ := words_cons c (l ++ '/' :: m)
    rw [List.cons_append, hcons, hcons']
    rw [ih, h, List.cons_append, List.cons.injEq] at h'
    obtain ⟨rfl, rfl⟩ := h'
    split <;> rfl

/-- The components on both sides of a slash. -/
theorem parts_join (s t : String) : Path.parts (s ++ "/" ++ t) = Path.parts s ++ Path.parts t := by
  rw [parts_eq, parts_eq, parts_eq, String.toList_append, String.toList_append, ← List.filter_append,
    ← List.map_append, ← words_join, List.append_assoc]
  rfl

/-- A text that loses its first character has no more components. -/
theorem parts_tail_le (c : Char) (l : List Char) :
    (Path.parts (String.ofList l)).length ≤ (Path.parts (String.ofList (c :: l))).length := by
  obtain ⟨w, ws, h, hcons⟩ := words_cons c l
  rw [parts_eq, parts_eq, String.toList_ofList, String.toList_ofList, hcons, h]
  split
  · exact ((List.sublist_cons_self _ _).map _ |>.filter _).length_le
  · rw [List.map_cons, List.map_cons, List.filter_cons, List.filter_cons]
    split
    · next hw =>
      have hcw : (String.ofList (c :: w) ≠ "" && String.ofList (c :: w) ≠ ".") = true := by
        have hnil : w ≠ [] := by
          rintro rfl
          exact absurd hw (by decide)
        simp only [Bool.and_eq_true, decide_eq_true_eq, ne_eq, ← String.toList_inj,
          String.toList_ofList]
        refine ⟨List.cons_ne_nil c w, fun hdot => hnil ?_⟩
        exact (List.cons.inj hdot).2
      rw [if_pos hcw]
      exact Nat.le_refl _
    · split
      · exact Nat.le_succ _
      · exact Nat.le_refl _

theorem parts_lstrip_le (s : String) :
    (Path.parts (lstrip_of "./" s)).length ≤ (Path.parts s).length := by
  have hlist : ∀ (p : Char → Bool) (l : List Char), (Path.parts (String.ofList (l.dropWhile p))).length ≤
      (Path.parts (String.ofList l)).length := by
    intro p l
    induction l with
    | nil => exact Nat.le_refl _
    | cons c l ih =>
      rw [List.dropWhile_cons]
      split
      · exact Nat.le_trans ih (parts_tail_le c l)
      · exact Nat.le_refl _
  have h := hlist (fun c => c ∈ "./".toList) s.toList
  rwa [String.ofList_toList] at h

/-! ### What a manifest lists -/

/-- The paths that a manifest lists, each with the lock that is written beside it. -/
def file_list (m : Manifest) : List (String × Lock) :=
  match (match m.files with | .missing => m.artifacts | raw => raw) with
  | .mapping entries => entries.map fun e => (e.1, lock e.2)
  | .sequence items => items.filterMap fun item => match item with
      | .name s => some (s, ⟨none, none⟩)
      | .entry path name file metadata =>
        if (Json.or (Json.or path name) file).truthy then
          some ((Json.or (Json.or path name) file).toStr, lock metadata)
        else none
      | .other => none
  | _ => []

section
variable (model_id : String) (canonical_id : Option String)

/-- The names whose prefixes are looked for, in their order. -/
def names : List String :=
  strip_of "/" model_id :: (canonical_id.filter (· ≠ "")).toList.map (strip_of "/")

/-- The prefixes that stand for the model in a path. -/
def fronts (name : String) : List String := ["models/" ++ name ++ "/", name ++ "/"]

/-- A manifest may write `path` for the file at a place in the model: the path is relative and without
    `..`, and the place is what it names, or what it names behind a prefix for the model. -/
def Published (path : String) (place : List String) : Prop :=
  PyText.startswith (slashes path) "/" = false ∧ ".." ∉ Path.parts (slashes path) ∧ place ≠ [] ∧
    ∃ front ∈ "" :: (names model_id canonical_id).flatMap fronts, ∃ tail,
      slashes path = front ++ tail ∧ PyText.startswith tail "/" = false ∧ Path.parts tail = place

/-- What `_manifest_files` makes of a manifest whose files are laid down at certain places: a key for
    each, that names the place, and under it the lock of the file. -/
structure Faithful (m : Manifest) (place : String → List String) (out : Dict String Lock) : Prop where
  named : ∀ e ∈ file_list m, ∃ key, manifest_rel model_id canonical_id e.1 = some key ∧
    Path.parts key = place e.1
  distinct : ∀ e ∈ file_list m, ∀ e' ∈ file_list m, place e.1 ≠ place e'.1 →
    manifest_rel model_id canonical_id e.1 ≠ manifest_rel model_id canonical_id e'.1
  locked : ∀ e ∈ file_list m, (∀ e' ∈ file_list m, place e'.1 = place e.1 → e'.2 = e.2) →
    ∃ key, manifest_rel model_id canonical_id e.1 = some key ∧ out.get? key = some e.2
  own : ∀ key l, out.get? key = some l →
    ∃ e ∈ file_list m, manifest_rel model_id canonical_id e.1 = some key ∧ e.2 = l

/-- A prefix of a name that a path begins with, the longer one if there are two. -/
def Front (name rel front : String) : Prop :=
  PyText.startswith rel front = true ∧ (front = "models/" ++ name ++ "/" ∨
    front = name ++ "/" ∧ PyText.startswith rel ("models/" ++ name ++ "/") = false)

/-- The path, without the dots and slashes it begins with, is still one for the place: the place's own
    path, in front of which no prefix stands; or this behind a prefix, with none in front of the path
    for a name that comes earlier, and none in front of the place for one that comes later. -/
def Kept (path : String) (place : List String) : Prop :=
  ∃ tail, Path.parts tail = place ∧ PyText.startswith tail "/" = false ∧
    ((lstrip_of "./" (slashes path) = tail ∧
        ∀ name ∈ names model_id canonical_id, ∀ front, ¬Front name tail front) ∨
      ∃ before name after front, names model_id canonical_id = before ++ name :: after ∧
        Front name (lstrip_of "./" (slashes path)) front ∧
        lstrip_of "./" (slashes path) = front ++ tail ∧
        (∀ earlier ∈ before, ∀ front, ¬Front earlier (lstrip_of "./" (slashes path)) front) ∧
        ∀ later ∈ after, ∀ front, ¬Front later tail front)

end

/-! ### Dropping the prefixes -/

section
variable {model_id : String} {canonical_id : Option String} {path rel name front tail key : String}
  {place : List String}

theorem strip_name_front (h : Front name rel front) (hrel : rel = front ++ tail) :
    strip_name rel name = tail := by
  obtain ⟨hstart, rfl | ⟨rfl, hno⟩⟩ := h
  · rw [strip_name, if_pos hstart, hrel, drop_front]
  · rw [strip_name, if_neg (by rw [hno]; exact Bool.false_ne_true), if_pos hstart, hrel, drop_front]

theorem strip_name_none (h : ∀ front, ¬Front name rel front) : strip_name rel name = rel := by
  have hlong : PyText.startswith rel ("models/" ++ name ++ "/") = false :=
    Bool.eq_false_iff.2 fun hstart => h _ ⟨hstart, .inl rfl⟩
  have hshort : PyText.startswith rel (name ++ "/") = false :=
    Bool.eq_false_iff.2 fun hstart => h _ ⟨hstart, .inr ⟨rfl, hlong⟩⟩
  rw [strip_name, hlong, hshort]
  rfl

/-- A name drops its prefix, or nothing. -/
theorem strip_name_cases (rel name : String) :
    (∃ front, Front name rel front ∧ rel = front ++ strip_name rel name) ∨
      (∀ front, ¬Front name rel front) ∧ strip_name rel name = rel := by
  by_cases h : ∃ front, Front name rel front
  · obtain ⟨front, hfront⟩ := h
    obtain ⟨tail, htail⟩ := startswith_iff.1 hfront.1
    exact .inl ⟨front, hfront, by rw [strip_name_front hfront htail, ← htail]⟩
  · have hnone : ∀ front, ¬Front name rel front := fun front hfront => h ⟨front, hfront⟩
    exact .inr ⟨hnone, strip_name_none hnone⟩

theorem fold_none {l : List String} (h : ∀ name ∈ l, ∀ front, ¬Front name rel front) :
    l.foldl strip_name rel = rel := by
  induction l with
  | nil => rfl
  | cons name l ih =>
    rw [List.foldl_cons, strip_name_none (h name List.mem_cons_self)]
    exact ih fun q hq => h q (List.mem_cons_of_mem _ hq)

theorem manifest_rel_eq (path : String) : manifest_rel model_id canonical_id path =
    if invalid_rel ((names model_id canonical_id).foldl strip_name (lstrip_of "./" (slashes path))) then
      none
    else some ((names model_id canonical_id).foldl strip_name (lstrip_of "./" (slashes path))) := rfl

/-! ### What a prefix stands for -/

theorem parts_short (name t : String) : Path.parts (name ++ "/" ++ t) = Path.parts name ++ Path.parts t :=
  parts_join name t

theorem parts_long (name t : String) : Path.parts ("models/" ++ name ++ "/" ++ t) =
    "models" :: (Path.parts name ++ Path.parts t) := by
  have hmodels : Path.parts "models" = ["models"] := by decide
  have hsplit : "models/" ++ name = "models" ++ "/" ++ name := rfl
  rw [parts_join, hsplit, parts_join, hmodels]
  rfl

theorem lstrip_models (x : String) : lstrip_of "./" ("models/" ++ x) = "models/" ++ x := by
  have hlist : ("models/" ++ x).toList = 'm' :: ("odels/" ++ x).toList := by
    rw [String.toList_append, String.toList_append]
    rfl
  rw [lstrip_of, hlist, List.dropWhile_cons_of_neg (by decide), ← hlist, String.ofList_toList]

/-- The components of a path that begins with a prefix. -/
theorem Front.parts_eq (h : Front name rel front) (t : String) :
    ∃ comps, Path.parts (front ++ t) = comps ++ Path.parts t ∧
      (comps = "models" :: Path.parts name ∨ comps = Path.parts name ∧
        PyText.startswith rel ("models/" ++ name ++ "/") = false) := by
  obtain ⟨-, rfl | ⟨rfl, hno⟩⟩ := h
  · exact ⟨_, parts_long name t, .inl rfl⟩
  · exact ⟨_, parts_short name t, .inr ⟨rfl, hno⟩⟩

theorem published_valid (h : Published model_id canonical_id path place) (hparts : Path.parts tail = place)
    (hstart : PyText.startswith tail "/" = false) : invalid_rel tail = false := by
  obtain ⟨-, hdots, hne, front, hfront, rest, hpath, -, hplace⟩ := h
  have hnot : ".." ∉ Path.parts tail := by
    rw [hparts, ← hplace]
    intro hmem
    refine hdots ?_
    rw [hpath]
    rcases List.mem_cons.1 hfront with rfl | hfront
    · rwa [String.empty_append]
    · obtain ⟨name, -, hname⟩ := List.mem_flatMap.1 hfront
      rcases List.mem_cons.1 hname with rfl | hname
      · rw [parts_long]
        exact List.mem_cons_of_mem _ (List.mem_append_right _ hmem)
      · rw [List.mem_singleton.1 hname, parts_short]
        exact List.mem_append_right _ hmem
  have hnil : tail ≠ "" := by
    rintro rfl
    exact hne hparts.symm
  rw [invalid_rel, hstart, decide_eq_false hnil, decide_eq_false hnot]
  rfl

/-- A path that is kept gives a key that names the place. -/
theorem Kept.named (h : Kept model_id canonical_id path place)
    (hpub : Published model_id canonical_id path place) :
    ∃ key, manifest_rel model_id canonical_id path = some key ∧ Path.parts key = place := by
  obtain ⟨tail, hparts, hstart, hkept⟩ := h
  have hfold : (names model_id canonical_id).foldl strip_name (lstrip_of "./" (slashes path)) = tail := by
    rcases hkept with ⟨hrel, hnone⟩ | ⟨before, name, after, front, hnames, hfront, hrel, hbefore, hafter⟩
    · rw [hrel]
      exact fold_none hnone
    · rw [hnames, List.foldl_append, fold_none hbefore, List.foldl_cons, strip_name_front hfront hrel]
      exact fold_none hafter
  refine ⟨tail, ?_, hparts⟩
  rw [manifest_rel_eq, hfold, published_valid hpub hparts hstart]
  rfl

/-- Two names do not both drop a prefix of a path, unless the model is called like the directory of all
    models. -/
theorem not_twice {a b front' : String} (hnames : names model_id canonical_id = [a, b])
    (ha : Path.parts a ≠ []) (hb : Path.parts b ≠ []) (hmodels : Path.parts a ≠ ["models"])
    (hpub : Published model_id canonical_id path place)
    (hfront : Front a (lstrip_of "./" (slashes path)) front)
    (hrel : lstrip_of "./" (slashes path) = front ++ rel) (hfront' : Front b rel front')
    (hrel' : rel = front' ++ key) (hplace : Path.parts key = place) : False := by
  obtain ⟨-, -, -, front₀, hfront₀, tail, hpath, -, htail⟩ := hpub
  obtain ⟨qa, hqa, hqa'⟩ := hfront.parts_eq rel
  obtain ⟨qb, hqb, hqb'⟩ := hfront'.parts_eq key
  have hcount : qa.length + qb.length + place.length ≤ (Path.parts (front₀ ++ tail)).length := by
    have hle := parts_lstrip_le (slashes path)
    rw [hrel, hqa, hrel', hqb, hplace, hpath, List.length_append, List.length_append] at hle
    omega
  have hapos := List.length_pos_of_ne_nil ha
  have hbpos := List.length_pos_of_ne_nil hb
  have hqale : (Path.parts a).length ≤ qa.length := by
    rcases hqa' with rfl | ⟨rfl, -⟩
    · exact Nat.le_succ _
    · exact Nat.le_refl _
  have hqble : (Path.parts b).length ≤ qb.length := by
    rcases hqb' with rfl | ⟨rfl, -⟩
    · exact Nat.le_succ _
    · exact Nat.le_refl _
  rw [hnames] at hfront₀
  simp only [List.flatMap_cons, List.flatMap_nil, fronts, List.append_nil, List.cons_append,
    List.nil_append, List.mem_cons, List.not_mem_nil, or_false] at hfront₀
  rcases hfront₀ with rfl | rfl | rfl | rfl | rfl
  · rw [String.empty_append, htail] at hcount
    omega
  · -- the longer prefix of the model id is dropped where it stands
    rw [parts_long, htail, List.length_cons, List.length_append] at hcount
    rcases hqa' with rfl | ⟨rfl, hno⟩
    · rw [List.length_cons] at hcount
      omega
    · rw [hpath, String.append_assoc, String.append_assoc, lstrip_models, ← String.append_assoc,
        ← String.append_assoc, PyText.startswith_append] at hno
      cases hno
  · rw [parts_short, htail, List.length_append] at hcount
    omega
  · -- the model id has to be the name in front of the canonical id
    rw [parts_long, htail, List.length_cons, List.length_append] at hcount
    rcases hqa' with rfl | ⟨rfl, hno⟩
    · rw [List.length_cons] at hcount
      omega
    · have hone : (Path.parts a).length = 1 := by omega
      obtain ⟨x, hx⟩ := List.length_eq_one_iff.1 hone
      have hsame : Path.parts (lstrip_of "./" (slashes path)) = "models" :: (Path.parts b ++ place) := by
        rw [hpath, String.append_assoc, String.append_assoc, lstrip_models, ← String.append_assoc,
          ← String.append_assoc, parts_long, htail]
      rw [hrel, hqa, hx] at hsame
      rw [hx, (List.cons.inj hsame).1] at hmodels
      exact hmodels rfl
  · rw [parts_short, htail, List.length_append] at hcount
    omega

/-- A key that names the place comes from a path that is kept. -/
theorem kept_of_named (hids : ∀ name ∈ names model_id canonical_id, Path.parts name ≠ [])
    (hmodels : Path.parts (strip_of "/" model_id) ≠ ["models"])
    (hpub : Published model_id canonical_id path place)
    (hkey : manifest_rel model_id canonical_id path = some key) (hplace : Path.parts key = place) :
    Kept model_id canonical_id path place := by
  rw [manifest_rel_eq] at hkey
  split at hkey
  · cases hkey
  next hvalid =>
  have hfold := Option.some.inj hkey
  rw [hfold, invalid_rel, Bool.or_eq_true, Bool.or_eq_true, not_or, not_or] at hvalid
  have hstart := Bool.eq_false_iff.2 hvalid.1.2
  have htwo : names model_id canonical_id = [strip_of "/" model_id] ∨
      ∃ b, names model_id canonical_id = [strip_of "/" model_id, b] := by
    rw [names]
    cases canonical_id.filter (· ≠ "") with
    | none => exact .inl rfl
    | some b => exact .inr ⟨strip_of "/" b, rfl⟩
  refine ⟨key, hplace, hstart, ?_⟩
  rcases htwo with hnames | ⟨b, hnames⟩
  · rw [hnames, List.foldl_cons, List.foldl_nil] at hfold
    rcases strip_name_cases (lstrip_of "./" (slashes path)) (strip_of "/" model_id) with
      ⟨front, hfront, hrel⟩ | ⟨hnone, hrel⟩
    · rw [hfold] at hrel
      exact .inr ⟨[], _, [], front, hnames, hfront, hrel, nofun, nofun⟩
    · rw [hrel] at hfold
      refine .inl ⟨hfold, fun name hname => ?_⟩
      rw [hnames] at hname
      rwa [List.mem_singleton.1 hname, ← hfold]
  · rw [hnames, List.foldl_cons, List.foldl_cons, List.foldl_nil] at hfold
    have hb := hids b (by rw [hnames]; exact List.mem_cons_of_mem _ (List.mem_singleton_self b))
    have ha := hids (strip_of "/" model_id) (by rw [hnames]; exact List.mem_cons_self)
    rcases strip_name_cases (lstrip_of "./" (slashes path)) (strip_of "/" model_id) with
      ⟨front, hfront, hrel⟩ | ⟨hnone, hrel⟩
    · rcases strip_name_cases (strip_name (lstrip_of "./" (slashes path)) (strip_of "/" model_id)) b with
        ⟨front', hfront', hrel'⟩ | ⟨hnone', hrel'⟩
      · rw [hfold] at hrel'
        exact absurd (not_twice hnames ha hb hmodels hpub hfront hrel hfront' hrel' hplace) not_false
      · rw [hrel'] at hfold
        rw [hfold] at hrel hnone'
        refine .inr ⟨[], _, [b], front, hnames, hfront, hrel, nofun, fun later hlater => ?_⟩
        rwa [List.mem_singleton.1 hlater]
    · rw [hrel] at hfold
      rcases strip_name_cases (lstrip_of "./" (slashes path)) b with
        ⟨front, hfront, hrel'⟩ | ⟨hnone', hrel'⟩
      · rw [hfold] at hrel'
        refine .inr ⟨[strip_of "/" model_id], b, [], front, hnames, hfront, hrel',
          fun earlier hearlier => ?_, nofun⟩
        rwa [List.mem_singleton.1 hearlier]
      · rw [hrel'] at hfold
        refine .inl ⟨hfold, fun name hname => ?_⟩
        rw [← hfold]
        rw [hnames] at hname
        rcases List.mem_cons.1 hname with rfl | hname
        · exact hnone
        · rwa [List.mem_singleton.1 hname]

/-! ### The keys of a manifest -/

variable {m : Manifest} {place : String → List String}

/-- The items of a list, gone through as the manifest lists them. -/
theorem items_listed (items : List FileItem) (out : Dict String Lock) :
    items.foldlM (fun out item => match item with
      | .name s => (manifest_rel model_id canonical_id s).map fun rel => out.set rel ⟨none, none⟩
      | .entry path name file metadata =>
        if (Json.or (Json.or path name) file).truthy then
          (manifest_rel model_id canonical_id (Json.or (Json.or path name) file).toStr).map
            fun rel => out.set rel (lock metadata)
        else some out
      | .other => some out) out =
    (items.filterMap fun item => match item with
      | .name s => some (s, ⟨none, none⟩)
      | .entry path name file metadata =>
        if (Json.or (Json.or path name) file).truthy then
          some ((Json.or (Json.or path name) file).toStr, lock metadata)
        else none
      | .other => none).foldlM (fun out (e : String × Lock) =>
        (manifest_rel model_id canonical_id e.1).map fun rel => out.set rel e.2) out := by
  induction items generalizing out with
  | nil => rfl
  | cons item items ih =>
    rw [List.foldlM_cons, List.filterMap_cons]
    cases item with
    | name s =>
      dsimp only
      rw [List.foldlM_cons]
      exact bind_congr ih
    | entry path name file metadata =>
      dsimp only
      split
      · rw [List.foldlM_cons]
        exact bind_congr ih
      · exact ih out
    | other => exact ih out

theorem entries_listed (entries : List (String × Option Metadata)) (out : Dict String Lock) :
    entries.foldlM (fun out e =>
      (manifest_rel model_id canonical_id e.1).map fun rel => out.set rel (lock e.2)) out =
    (entries.map fun e => (e.1, lock e.2)).foldlM (fun out (e : String × Lock) =>
      (manifest_rel model_id canonical_id e.1).map fun rel => out.set rel e.2) out := by
  rw [List.foldlM_map]

/-- The files of a manifest are gone through as it lists them. -/
theorem manifest_files_listed (m : Manifest) : manifest_files model_id canonical_id m =
    (file_list m).foldlM (fun out e => (manifest_rel model_id canonical_id e.1).map fun rel =>
      out.set rel e.2) Dict.empty := by
  obtain ⟨id, files, artifacts, payload, archive, payload_archive, source⟩ := m
  cases files with
  | mapping entries => exact entries_listed entries Dict.empty
  | sequence items => exact items_listed items Dict.empty
  | other => rfl
  | missing =>
    cases artifacts with
    | mapping entries => exact entries_listed entries Dict.empty
    | sequence items => exact items_listed items Dict.empty
    | other => rfl
    | missing => rfl

theorem lookup_mem {k : String} {l : List (String × Lock)} {v : Lock} (h : l.lookup k = some v) :
    (k, v) ∈ l := by
  obtain ⟨before, after, hsplit, -⟩ := List.lookup_eq_some_iff.1 h
  rw [hsplit]
  exact List.mem_append_right _ List.mem_cons_self

/-- Where every path gives a key, the locks are written under the keys. -/
theorem foldlM_keys {l : List (String × Lock)} {key : String → String}
    (h : ∀ e ∈ l, manifest_rel model_id canonical_id e.1 = some (key e.1)) (out : Dict String Lock) :
    l.foldlM (fun out e => (manifest_rel model_id canonical_id e.1).map fun rel => out.set rel e.2) out =
      some (out.update (l.map fun e => (key e.1, e.2))) := by
  induction l generalizing out with
  | nil => rfl
  | cons e l ih =>
    rw [List.foldlM_cons, h e List.mem_cons_self]
    exact ih (fun q hq => h q (List.mem_cons_of_mem _ hq)) _

theorem faithful_of_named (h : ∀ e ∈ file_list m, ∃ key, manifest_rel model_id canonical_id e.1 = some key ∧
    Path.parts key = place e.1) :
    ∃ out, manifest_files model_id canonical_id m = some out ∧
      Faithful model_id canonical_id m place out := by
  let key := fun path => (manifest_rel model_id canonical_id path).getD ""
  have hkey : ∀ e ∈ file_list m, manifest_rel model_id canonical_id e.1 = some (key e.1) ∧
      Path.parts (key e.1) = place e.1 := fun e he => by
    obtain ⟨k, hk, hparts⟩ := h e he
    have hsame : key e.1 = k := by
      dsimp only [key]
      rw [hk]
      rfl
    exact ⟨by rw [hsame, hk], by rw [hsame, hparts]⟩
  refine ⟨Dict.empty.update ((file_list m).map fun e => (key e.1, e.2)), ?_, h,
    fun e he e' he' hne heq => ?_,
    fun e he hone => ?_, fun k l hget => ?_⟩
  · rw [manifest_files_listed]
    exact foldlM_keys (fun e he => (hkey e he).1) _
  · rw [(hkey e he).1, (hkey e' he').1] at heq
    exact hne (by rw [← (hkey e he).2, ← (hkey e' he').2, Option.some.inj heq])
  · refine ⟨key e.1, (hkey e he).1, ?_⟩
    have hthere : (((file_list m).map fun e => (key e.1, e.2)).reverse.lookup (key e.1)).isSome = true := by
      rw [Dict.lookup_isSome, List.map_reverse, List.mem_reverse, List.map_map]
      exact List.mem_map.2 ⟨e, he, rfl⟩
    obtain ⟨l, hl⟩ := Option.isSome_iff_exists.1 hthere
    obtain ⟨e', he', hpair⟩ := List.mem_map.1 (List.mem_reverse.1 (lookup_mem hl))
    obtain ⟨hsame, rfl⟩ := Prod.mk.inj hpair
    rw [Dict.get?_update, hl, ← hone e' he' (by rw [← (hkey e he).2, ← (hkey e' he').2, hsame])]
    rfl
  · rw [Dict.get?_update, Dict.get?_empty, Option.or_none] at hget
    obtain ⟨e, he, hpair⟩ := List.mem_map.1 (List.mem_reverse.1 (lookup_mem hget))
    obtain ⟨rfl, rfl⟩ := Prod.mk.inj hpair
    exact ⟨e, he, (hkey e he).1, rfl⟩

end

/-- The keys of a manifest name the places of its files, each with the lock of the file, where every path
    is kept; and only there, if the ids name something and the model is not called `models`. -/
theorem manifest_paths {model_id : String} {canonical_id : Option String} {m : Manifest}
    {place : String → List String}
    (hpub : ∀ e ∈ file_list m, Published model_id canonical_id e.1 (place e.1)) :
    ((∀ e ∈ file_list m, Kept model_id canonical_id e.1 (place e.1)) →
      ∃ out, manifest_files model_id canonical_id m = some out ∧
        Faithful model_id canonical_id m place out) ∧
    ((∀ name ∈ names model_id canonical_id, Path.parts name ≠ []) →
      Path.parts (strip_of "/" model_id) ≠ ["models"] →
      (∃ out, manifest_files model_id canonical_id m = some out ∧
        Faithful model_id canonical_id m place out) →
      ∀ e ∈ file_list m, Kept model_id canonical_id e.1 (place e.1)) := by
  refine ⟨fun hkept => faithful_of_named fun e he => (hkept e he).named (hpub e he), ?_⟩
  rintro hids hmodels ⟨out, -, hfaithful⟩ e he
  obtain ⟨key, hkey, hplace⟩ := hfaithful.named e he
  exact kept_of_named hids hmodels (hpub e he) hkey hplace

/-- A manifest of two files of the model `voice`, without locks. -/
def two_files (path path' : String) : Manifest where
  model_id := .str "voice"
  files := .sequence [.name path, .name path']
  artifacts := .missing
  payload := .missing
  archive := .missing
  payload_archive := .missing
  source := none

/-- What a path names as it stands. -/
def plain_place (path : String) : List String := Path.parts (slashes path)

theorem published_plain {model_id path : String} {canonical_id : Option String}
    (hstart : PyText.startswith (slashes path) "/" = false) (hdots : ".." ∉ plain_place path)
    (hne : plain_place path ≠ []) : Published model_id canonical_id path (plain_place path) :=
  ⟨hstart, hdots, hne, "", List.mem_cons_self, slashes path, String.empty_append.symm, hstart, rfl⟩

theorem published_two {path path' : String} {canonical_id : Option String} {place : String → List String}
    (h : Published "voice" canonical_id path (place path))
    (h' : Published "voice" canonical_id path' (place path')) :
    ∀ e ∈ file_list (two_files path path'), Published "voice" canonical_id e.1 (place e.1) := by
  intro e he
  rcases List.mem_cons.1 he with rfl | he
  · exact h
  · rw [List.mem_singleton.1 he]
    exact h'

theorem published_config : Published "voice" none "config.json" (plain_place "config.json") :=
  published_plain (by decide +kernel) (by decide +kernel) (by decide +kernel)

theorem manifest_paths_voice :
    ((∀ e ∈ file_list (two_files "config.json" "engines/asr.bin"),
        Kept "voice" none e.1 (plain_place e.1)) →
      ∃ out, manifest_files "voice" none (two_files "config.json" "engines/asr.bin") = some out ∧
        Faithful "voice" none (two_files "config.json" "engines/asr.bin") plain_place out) ∧
    ((∀ name ∈ names "voice" none, Path.parts name ≠ []) →
      Path.parts (strip_of "/" "voice") ≠ ["models"] →
      (∃ out, manifest_files "voice" none (two_files "config.json" "engines/asr.bin") = some out ∧
        Faithful "voice" none (two_files "config.json" "engines/asr.bin") plain_place out) →
      ∀ e ∈ file_list (two_files "config.json" "engines/asr.bin"),
        Kept "voice" none e.1 (plain_place e.1)) :=
  manifest_paths (published_two published_config
    (published_plain (by decide +kernel) (by decide +kernel) (by decide +kernel)))

/-- Two files that get one key are not told apart. -/
theorem not_faithful {path path' : String} (hplace : plain_place path ≠ plain_place path')
    (hkey : manifest_rel "voice" none path = manifest_rel "voice" none path') :
    ¬∃ out, manifest_files "voice" none (two_files path path') = some out ∧
      Faithful "voice" none (two_files path path') plain_place out := by
  rintro ⟨out, -, hfaithful⟩
  exact hfaithful.distinct (path, ⟨none, none⟩) List.mem_cons_self (path', ⟨none, none⟩)
    (List.mem_cons_of_mem _ List.mem_cons_self) hplace hkey

/-- The key of a file whose name begins with a dot is another file's, and so is that of a file in a
    directory that is named like the model. -/
theorem names_collide :
    ((∀ e ∈ file_list (two_files ".config.json" "config.json"),
        Published "voice" none e.1 (plain_place e.1)) ∧
      ¬∃ out, manifest_files "voice" none (two_files ".config.json" "config.json") = some out ∧
        Faithful "voice" none (two_files ".config.json" "config.json") plain_place out) ∧
    (∀ e ∈ file_list (two_files "voice/config.json" "config.json"),
        Published "voice" none e.1 (plain_place e.1)) ∧
      ¬∃ out, manifest_files "voice" none (two_files "voice/config.json" "config.json") = some out ∧
        Faithful "voice" none (two_files "voice/config.json" "config.json") plain_place out :=
  ⟨⟨published_two (published_plain (by decide +kernel) (by decide +kernel) (by decide +kernel))
      published_config, not_faithful (by decide +kernel) (by decide +kernel)⟩,
    published_two (published_plain (by decide +kernel) (by decide +kernel) (by decide +kernel))
      published_config, not_faithful (by decide +kernel) (by decide +kernel)⟩

end LocalVoice.ModelCache
