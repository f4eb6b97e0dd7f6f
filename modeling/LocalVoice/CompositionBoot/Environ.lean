import LocalVoice.LeafComposition.Environment

/-! The environment `apply_composition` sets, against the one `apply_profile` computes from the same
    map. A profile substitutes the raw values of its own map once; a composition expands the map in
    place first and then against `os.environ`, which grows while it does. They agree if no value that
    is assigned refers to a key whose value refers to a known name. -/

namespace LocalVoice.CompositionBoot
open LocalVoice.Lib LocalVoice.ProfileLoader LocalVoice.LeafComposition

/-- The loop over the resolved environment in `apply_composition`: a key that is in `os.environ` is
    passed over, another one is assigned its value expanded against `os.environ` as it is by then. -/
def apply_env : List (String × String) → Dict String String → Dict String String
  | [], environ => environ
  | (key, value) :: rest, environ =>
    if (environ.get? key).isSome then apply_env rest environ
    else apply_env rest (environ.set key (Template.safe_substitute value environ.get?))

/-- Every value a composition assigns from the resolved map is the one a profile computes from the
    map. -/
def Alike (environ m resolved : Dict String String) : Prop :=
  ∀ k v, m.get? k = some v → environ.get? k = none →
    (apply_env resolved.items environ).get? k =
      some (expand_with_profile_env environ.get? (m.mapValues Json.str) v)

/-- No value that is assigned refers to a key whose value refers to a known name. -/
def Flat (environ m : Dict String String) : Prop :=
  ∀ k v, m.get? k = some v → environ.get? k = none → ∀ x ∈ Template.refs v, ∀ w, m.get? x = some w →
    ∀ y ∈ Template.refs w, m.get? y = none ∧ environ.get? y = none

/-- What some value of the map refers to. -/
def Mentions (m : Dict String String) (x : String) : Prop :=
  ∃ k v, m.get? k = some v ∧ x ∈ Template.refs v

/-! ### The two values of a key -/

section
variable {environ m p : Dict String String} {l : List (String × String)} {i k u v x y : String}

/-- The keys that are assigned. -/
def assigned (environ : Dict String String) (l : List (String × String)) : List (String × String) :=
  l.filter fun item => (environ.get? item.1).isNone

theorem assigned_cons (key value : String) : assigned environ ((key, value) :: l) =
    if (environ.get? key).isNone = true then (key, value) :: assigned environ l
    else assigned environ l := List.filter_cons

theorem apply_env_eq (hnodup : (l.map Prod.fst).Nodup) :
    apply_env l environ = Dict.fill Template.safe_substitute (assigned environ l) environ := by
  induction l generalizing environ with
  | nil => rfl
  | cons item rest ih =>
    obtain ⟨key, value⟩ := item
    rw [List.map_cons, List.nodup_cons] at hnodup
    rw [apply_env]
    split
    · next hthere =>
      have hkey : ¬ (environ.get? key).isNone = true := by simpa using Option.isSome_iff_ne_none.1 hthere
      rw [ih hnodup.2, assigned_cons, if_neg hkey]
    · next hnew =>
      have hkey : (environ.get? key).isNone = true := by simpa using hnew
      have hrest : assigned (environ.set key (Template.safe_substitute value environ.get?)) rest =
          assigned environ rest := by
        refine List.filter_congr fun item hitem => ?_
        have hmem : item.1 ∈ rest.map Prod.fst := List.mem_map_of_mem hitem
        have hne : item.1 ≠ key := fun heq => hnodup.1 (heq ▸ hmem)
        rw [Dict.get?_set, if_neg hne]
      rw [ih hnodup.2, hrest, assigned_cons, if_pos hkey, Dict.fill]

theorem mem_assigned (h : x ∈ (assigned environ l).map Prod.fst) :
    x ∈ l.map Prod.fst ∧ environ.get? x = none := by
  obtain ⟨item, hitem, rfl⟩ := List.mem_map.1 h
  obtain ⟨hmem, hnone⟩ := List.mem_filter.1 hitem
  exact ⟨List.mem_map_of_mem hmem, Option.isNone_iff_eq_none.1 hnone⟩

/-- What is looked up while a key is assigned. -/
def look (environ p : Dict String String) (k x : String) : Option String :=
  if Dict.Before (assigned environ p.items) x k then (apply_env p.items environ).get? x
  else environ.get? x

theorem get?_apply_env (hk : p.get? k = some u) (hnew : environ.get? k = none) :
    (apply_env p.items environ).get? k =
      some (Template.safe_substitute u (look environ p k)) := by
  have hsub : ((assigned environ p.items).map Prod.fst).Nodup :=
    p.nodup.sublist (List.filter_sublist.map _)
  have hlookup : (assigned environ p.items).lookup k = some u :=
    (Dict.mem_iff_lookup hsub).1 (List.mem_filter.2 ⟨Dict.mem_items.2 hk, by rw [hnew]; rfl⟩)
  have hfill := Dict.get?_fill (f := Template.safe_substitute) (d := environ) hsub hlookup
  rw [← apply_env_eq p.nodup] at hfill
  exact hfill

/-- What is looked up is a key that was assigned, or in `os.environ`. -/
theorem look_cases (environ p : Dict String String) (k x : String) :
    (Dict.Before (assigned environ p.items) x k ∧ look environ p k x =
        (apply_env p.items environ).get? x ∧ x ∈ p.keys ∧ environ.get? x = none) ∨
      look environ p k x = environ.get? x := by
  by_cases hbefore : Dict.Before (assigned environ p.items) x k
  · obtain ⟨hmem, hnone⟩ := mem_assigned hbefore.mem
    exact .inl ⟨hbefore, if_pos hbefore, hmem, hnone⟩
  · exact .inr (if_neg hbefore)

theorem profile_value (environ : Env) (m : Dict String String) (v : String) :
    expand_with_profile_env environ (m.mapValues Json.str) v =
      Template.safe_substitute v fun x => (m.get? x).or (environ x) := by
  refine congrArg (Template.safe_substitute v) (funext fun x => ?_)
  rw [profile_strings, Dict.get?_mapValues]
  cases m.get? x <;> rfl

/-- A template whose keys refer to no known name is expanded in the map as a profile does it. -/
theorem pass_flat (hm : PlainEnv m.get?) (hk : m.get? k = some v)
    (hflat : ∀ x ∈ Template.refs v, ∀ w, m.get? x = some w → ∀ y ∈ Template.refs w, m.get? y = none) :
    (pass m).get? k = some (Template.safe_substitute v m.get?) := by
  rw [get?_pass hk]
  refine congrArg some (safe_substitute_congr fun x hx => ?_)
  split
  · cases hw : m.get? x with
    | none =>
      rw [Dict.get?_eq_none, keys_pass]
      exact Dict.get?_eq_none.1 hw
    | some w =>
      rw [get?_pass hw]
      refine congrArg some (safe_substitute_self (hm x w hw) fun y hy => ?_)
      have hnone := hflat x hx w hw y hy
      split
      · rw [Dict.get?_eq_none, keys_pass]
        exact Dict.get?_eq_none.1 hnone
      · exact hnone
  · rfl

/-- What does not refer to keys stays as it is. -/
theorem pass_still (hv : Template.Plain v) (hk : m.get? k = some v)
    (hrefs : ∀ x ∈ Template.refs v, m.get? x = none) : (pass m).get? k = some v := by
  rw [get?_pass hk]
  refine congrArg some (safe_substitute_self hv fun x hx => ?_)
  have hnone := hrefs x hx
  split
  · rw [Dict.get?_eq_none, keys_pass]
    exact Dict.get?_eq_none.1 hnone
  · exact hnone

theorem alike_of_flat (hm : PlainEnv m.get?) (hflat : Flat environ m) :
    Alike environ m (expand_passes 2 m) := by
  intro k v hk hnew
  have hfirst : (pass m).get? k = some (Template.safe_substitute v m.get?) :=
    pass_flat hm hk fun x hx w hw y hy => (hflat k v hk hnew x hx w hw y hy).1
  have hplain : Template.Plain (Template.safe_substitute v m.get?) := plain_pass hm k _ hfirst
  have hnokey : ∀ x, m.get? x = none → (pass m).get? x = none := fun x hx => by
    rw [Dict.get?_eq_none, keys_pass]
    exact Dict.get?_eq_none.1 hx
  have hrefs : ∀ x ∈ Template.refs (Template.safe_substitute v m.get?), (pass m).get? x = none := by
    intro x hx
    obtain ⟨j, hj, ⟨hnone, rfl⟩ | ⟨w, hw, hx⟩⟩ := (refs_safe_substitute (hm k v hk) hm).1 hx
    · exact hnokey x hnone
    · exact hnokey x (hflat k v hk hnew j hj w hw x hx).1
  have hsecond : (expand_passes 2 m).get? k = some (Template.safe_substitute v m.get?) := by
    rw [expand_passes_eq]
    exact pass_still hplain hfirst hrefs
  have hlook : ∀ x, m.get? x = none → look environ (expand_passes 2 m) k x = environ.get? x := by
    intro x hx
    rcases look_cases environ (expand_passes 2 m) k x with
      ⟨-, -, hkey, -⟩ | h
    · rw [expand_passes_eq, keys_pass, keys_pass] at hkey
      exact absurd hkey (Dict.get?_eq_none.1 hx)
    · exact h
  rw [get?_apply_env hsecond hnew, profile_value, safe_substitute_comp (hm k v hk) hm]
  refine congrArg some (safe_substitute_congr fun x hx => ?_)
  cases hw : m.get? x with
  | none => exact hlook x hw
  | some w =>
    refine congrArg some (safe_substitute_self (hm x w hw) fun y hy => ?_)
    obtain ⟨hkey, hname⟩ := hflat k v hk hnew x hx w hw y hy
    rw [hlook y hkey, hname]

/-! ### What a composition leaves to expand -/

theorem mentions_pass (hm : PlainEnv m.get?) (h : Mentions (pass m) x) : Mentions m x := by
  obtain ⟨k, v, hv, hx⟩ := h
  induction k using (Dict.before_wf m.items).induction generalizing v x with
  | h k ih =>
    obtain ⟨w, hw, rfl⟩ := get?_pass_inv hv
    have hlook : PlainEnv fun x =>
        if Dict.Before m.items x k then (pass m).get? x else m.get? x := fun x u hx => by
      dsimp only at hx
      split at hx
      · exact plain_pass hm x u hx
      · exact hm x u hx
    obtain ⟨j, hj, ⟨-, rfl⟩ | ⟨u, hu, hx⟩⟩ := (refs_safe_substitute (hm k w hw) hlook).1 hx
    · exact ⟨k, w, hw, hj⟩
    · split at hu
      · next hbefore => exact ih j hbefore u hu hx
      · exact ⟨j, u, hu, hx⟩

theorem mentions_passes (hm : PlainEnv m.get?) (h : Mentions (expand_passes 2 m) x) :
    Mentions m x := by
  rw [expand_passes_eq] at h
  exact mentions_pass hm (mentions_pass (plain_pass hm) h)

/-- What a key refers to after two passes lies below what its references refer to. -/
theorem refers_below (hm : PlainEnv m.get?) (h : Refers (expand_passes 2 m) i y) :
    ∃ x z, Refers m i x ∧ Refers m x z ∧ Relation.TransGen (Refers m) z y := by
  obtain ⟨a, b, hia, hab, hby⟩ := ((refers_passes hm).1 h).nested
  obtain ⟨x, z, hix, hxz, hza⟩ := hia.nested
  refine ⟨x, z, hix, hxz, Relation.TransGen.trans_right hza ?_⟩
  have hdown : ∀ {c}, Relation.ReflTransGen (LeftOver m (Refers m)) b c →
      Relation.ReflTransGen (Refers m) b c := by
    intro c hc
    induction hc with
    | refl => exact .refl
    | tail _ hstep ih => exact ih.trans hstep.reach.to_reflTransGen
  exact Relation.TransGen.trans_left hab.reach (hdown hby)

/-- What is written for a key: a plain value that refers to no name of `os.environ`, and only to keys
    that the key refers to. -/
structure Written (environ m : Dict String String) (k g : String) : Prop where
  plain : Template.Plain g
  unknown : ∀ y ∈ Template.refs g, environ.get? y = none
  reach : ∀ y ∈ Template.refs g, y ∈ m.keys → Relation.TransGen (Refers m) k y

/-- The names of `os.environ` that the map mentions have values without `$`. -/
def Dollarless (environ m : Dict String String) : Prop :=
  ∀ x w, Mentions m x → environ.get? x = some w → '$' ∉ w.toList

/-- Where a reference of a written value comes from: it was there and is not known, or it is a
    reference of a key that was written before. -/
theorem written_refs (hm : PlainEnv m.get?) (hfree : Dollarless environ m)
    (hk : (expand_passes 2 m).get? k = some u)
    (hbelow : ∀ j g, Dict.Before (assigned environ (expand_passes 2 m).items) j k →
      (apply_env (expand_passes 2 m).items environ).get? j = some g → Written environ m j g) :
    Template.Plain (Template.safe_substitute u (look environ (expand_passes 2 m) k)) ∧
      ∀ y ∈ Template.refs (Template.safe_substitute u (look environ (expand_passes 2 m) k)),
        ∃ j ∈ Template.refs u, (y = j ∧ environ.get? j = none) ∨
          (j ∈ (expand_passes 2 m).keys ∧ ∃ g, Written environ m j g ∧ y ∈ Template.refs g) := by
  have hcases : ∀ j ∈ Template.refs u, ∀ w, look environ (expand_passes 2 m) k j = some w →
      (j ∈ (expand_passes 2 m).keys ∧ Written environ m j w) ∨
        (Template.Plain w ∧ Template.refs w = []) := by
    intro j hj w hw
    rcases look_cases environ (expand_passes 2 m) k j with
      ⟨hbefore, heq, hkey, -⟩ | heq
    · rw [heq] at hw
      exact .inl ⟨hkey, hbelow j w hbefore hw⟩
    · rw [heq] at hw
      exact .inr (plain_of_no_dollar (hfree j w (mentions_passes hm ⟨k, u, hk, hj⟩) hw))
  have hread := refs_safe_substitute_of (m := look environ (expand_passes 2 m) k)
    (plain_passes hm k u hk) fun j hj w hw => by
      rcases hcases j hj w hw with ⟨-, h⟩ | ⟨h, -⟩
      · exact h.plain
      · exact h
  refine ⟨hread.1, fun y hy => ?_⟩
  obtain ⟨j, hj, ⟨hnone, rfl⟩ | ⟨w, hw, hy⟩⟩ := (hread.2 y).1 hy
  · refine ⟨y, hj, .inl ⟨rfl, ?_⟩⟩
    rcases look_cases environ (expand_passes 2 m) k y with
      ⟨-, -, -, h⟩ | heq
    · exact h
    · rw [← heq, hnone]
  · rcases hcases j hj w hw with ⟨hkey, h⟩ | ⟨-, hrefs⟩
    · exact ⟨j, hj, .inr ⟨hkey, w, h, hy⟩⟩
    · rw [hrefs] at hy
      cases hy

theorem written (hm : PlainEnv m.get?) (hfree : Dollarless environ m) {g : String}
    (hk : k ∈ (expand_passes 2 m).keys) (hnew : environ.get? k = none)
    (hg : (apply_env (expand_passes 2 m).items environ).get? k = some g) : Written environ m k g := by
  induction k using (Dict.before_wf (assigned environ (expand_passes 2 m).items)).induction
    generalizing g with
  | h k ih =>
    obtain ⟨u, hu⟩ := Dict.mem_keys.1 hk
    obtain ⟨hplain, hrefs⟩ := written_refs hm hfree hu fun j g hbefore hg => by
      obtain ⟨hkey, hnone⟩ := mem_assigned hbefore.mem
      exact ih j hbefore hkey hnone hg
    rw [get?_apply_env hu hnew] at hg
    obtain rfl := Option.some.inj hg
    refine ⟨hplain, fun y hy => ?_, fun y hy hkey => ?_⟩
    · obtain ⟨j, -, ⟨rfl, hnone⟩ | ⟨-, g, hg, hy⟩⟩ := hrefs y hy
      · exact hnone
      · exact hg.unknown y hy
    · have hkeys : (expand_passes 2 m).keys = m.keys := by
        rw [expand_passes_eq, keys_pass, keys_pass]
      have hdown : ∀ j ∈ Template.refs u, j ∈ (expand_passes 2 m).keys →
          Relation.TransGen (Refers m) k j := fun j hj hjkey => by
        obtain ⟨x, z, hx, hz, hreach⟩ := refers_below hm ⟨u, hu, hj, hjkey⟩
        exact .head hx (.head hz hreach)
      obtain ⟨j, hj, ⟨rfl, -⟩ | ⟨hjkey, g, hg, hy⟩⟩ := hrefs y hy
      · exact hdown y hj (hkeys ▸ hkey)
      · exact (hdown j hj hjkey).trans (hg.reach y hy hkey)

/-! ### Exactly when they agree -/

/-- Of the members of a list with a property one is below none of the others. -/
theorem exists_top {T : String → String → Prop} {P : String → Prop} (hirr : ∀ a, ¬ T a a)
    (htrans : ∀ {a b c}, T a b → T b c → T a c) {l : List String} (h : ∃ a ∈ l, P a) :
    ∃ y ∈ l, P y ∧ ∀ z ∈ l, P z → ¬ T z y := by
  induction l with
  | nil =>
    obtain ⟨a, ha, -⟩ := h
    cases ha
  | cons b l ih =>
    by_cases hl : ∃ a ∈ l, P a
    · obtain ⟨y, hy, hPy, htop⟩ := ih hl
      by_cases hb : P b ∧ T b y
      · refine ⟨b, List.mem_cons_self, hb.1, fun z hz hPz hzb => ?_⟩
        rcases List.mem_cons.1 hz with rfl | hz
        · exact hirr z hzb
        · exact htop z hz hPz (htrans hzb hb.2)
      · refine ⟨y, List.mem_cons_of_mem _ hy, hPy, fun z hz hPz hzy => ?_⟩
        rcases List.mem_cons.1 hz with rfl | hz
        · exact hb ⟨hPz, hzy⟩
        · exact htop z hz hPz hzy
    · obtain ⟨a, ha, hPa⟩ := h
      rcases List.mem_cons.1 ha with rfl | ha
      · refine ⟨a, List.mem_cons_self, hPa, fun z hz hPz hza => ?_⟩
        rcases List.mem_cons.1 hz with rfl | hz
        · exact hirr z hza
        · exact hl ⟨z, hz, hPz⟩
      · exact absurd ⟨a, ha, hPa⟩ hl

theorem flat_of_alike (hm : PlainEnv m.get?) (hacyclic : Acyclic m) (hfree : Dollarless environ m)
    (h : Alike environ m (expand_passes 2 m)) : Flat environ m := by
  intro k v hk hnew x hx w hw y hy
  have hkeys : (expand_passes 2 m).keys = m.keys := by
    rw [expand_passes_eq, keys_pass, keys_pass]
  have hkey : k ∈ (expand_passes 2 m).keys := hkeys ▸ Dict.mem_keys.2 ⟨v, hk⟩
  have hG := h k v hk hnew
  rw [profile_value] at hG
  have hwritten := written hm hfree hkey hnew hG
  -- a profile leaves the references of the keys' values as they are
  have hkept : ∀ {x w y}, x ∈ Template.refs v → m.get? x = some w → y ∈ Template.refs w →
      y ∈ Template.refs (Template.safe_substitute v fun x => (m.get? x).or (environ.get? x)) := by
    intro x w y hx hw hy
    refine ((refs_safe_substitute_of (hm k v hk) fun j hj u hu => ?_).2 y).2
      ⟨x, hx, .inr ⟨w, by rw [hw]; rfl, hy⟩⟩
    cases hj' : m.get? j with
    | some u' =>
      rw [hj'] at hu
      exact Option.some.inj hu ▸ hm j u' hj'
    | none =>
      rw [hj'] at hu
      exact (plain_of_no_dollar (hfree j u ⟨k, v, hk, hj⟩ hu)).1
  have hname := hwritten.unknown y (hkept hx hw hy)
  refine ⟨Dict.get?_eq_none.2 fun hykey => ?_, hname⟩
  -- of the keys below the references of `k` one is below none of the others
  have hxkey : x ∈ m.keys := Dict.mem_keys.2 ⟨w, hw⟩
  obtain ⟨t, htkey, ⟨a, hka, hat⟩, htop⟩ := exists_top
    (P := fun y => ∃ x, Refers m k x ∧ Refers m x y) hacyclic Relation.TransGen.trans
    ⟨y, hykey, x, (⟨v, hk, hx, hxkey⟩ : Refers m k x), (⟨w, hw, hy, hykey⟩ : Refers m x y)⟩
  have hbelow : ∀ {c}, Refers (expand_passes 2 m) k c → ¬ Relation.TransGen (Refers m) c t ∧
      c ≠ t := fun hc => by
    obtain ⟨b, z, hkb, hbz, hreach⟩ := refers_below hm hc
    have hz : z ∈ m.keys := by
      obtain ⟨-, -, -, hz⟩ := hbz
      exact hz
    refine ⟨fun hct => htop z hz ⟨b, hkb, hbz⟩ (hreach.trans hct), ?_⟩
    rintro rfl
    exact htop z hz ⟨b, hkb, hbz⟩ hreach
  obtain ⟨u, hu⟩ := Dict.mem_keys.1 hkey
  rw [get?_apply_env hu hnew] at hG
  obtain ⟨v', hv', ha, -⟩ := hka
  obtain rfl := Option.some.inj (hk.symm.trans hv')
  obtain ⟨w', hw', ht, -⟩ := hat
  have hread := (written_refs hm hfree hu fun j g hbefore hg => by
    obtain ⟨hjkey, hnone⟩ := mem_assigned hbefore.mem
    exact written hm hfree hjkey hnone hg).2 t (Option.some.inj hG ▸ hkept ha hw' ht)
  obtain ⟨j, hj, ⟨rfl, -⟩ | ⟨hjkey, g, hg, hy⟩⟩ := hread
  · exact (hbelow ⟨u, hu, hj, hkeys ▸ htkey⟩).2 rfl
  · exact (hbelow ⟨u, hu, hj, hjkey⟩).1 (hg.reach t hy htkey)

end

/-- The two paths agree if the map is flat, and, where the names it mentions have values without `$`,
    only if it is. -/
theorem paths_alike (r : Registry) (selected : List String)
    (overrides : Option (Dict String String)) (m environ : Dict String String)
    (hmerged : r.merge_env selected overrides = .ok m) (hplain : PlainEnv m.get?) :
    ∃ resolved, r.resolve_env selected overrides = .ok resolved ∧
      (Flat environ m → Alike environ m resolved) ∧
        (Acyclic m → Dollarless environ m → Alike environ m resolved → Flat environ m) := by
  refine ⟨expand_passes 2 m, ?_, alike_of_flat hplain, flat_of_alike hplain⟩
  rw [Registry.resolve_env, hmerged]
  rfl

theorem chain_paths : ∃ resolved, Sample.chained.resolve_env ["asr"] none = .ok resolved ∧
    (Flat .empty Sample.chain → Alike .empty Sample.chain resolved) ∧
      (Acyclic Sample.chain → Dollarless .empty Sample.chain → Alike .empty Sample.chain resolved →
        Flat .empty Sample.chain) :=
  paths_alike Sample.chained ["asr"] none Sample.chain .empty Sample.chained_merge Sample.chain_plain

/-- A composition expands what a profile leaves as it is. -/
theorem chain_unlike : ¬ ∀ (r : Registry) (selected : List String)
    (overrides : Option (Dict String String)) (m environ resolved : Dict String String),
    r.merge_env selected overrides = .ok m → Acyclic m →
      r.resolve_env selected overrides = .ok resolved → Alike environ m resolved := by
  intro h
  have halike := h Sample.chained ["asr"] none Sample.chain .empty (expand_passes 2 Sample.chain)
    Sample.chained_merge Sample.chain_acyclic
    (by rw [Registry.resolve_env, Sample.chained_merge]; rfl)
  have hvalue := halike "C" "${D}" (by decide +kernel) rfl
  exact absurd hvalue (by decide +kernel)

end LocalVoice.CompositionBoot
