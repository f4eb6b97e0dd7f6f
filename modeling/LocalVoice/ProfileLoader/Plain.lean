import LocalVoice.ProfileLoader.Expand

/-! Plain templates: every `$` opens a reference or is a character like any other, and which of them,
    and where the reference ends, does not depend on what follows the template. Plain templates can be
    written one behind the other and are read piece by piece (`scan_plain`), so a substitution by plain
    values is again plain, and refers to what the values refer to (`refs_safe_substitute`). -/

namespace LocalVoice.ProfileLoader
open LocalVoice.Lib

structure Identifier (name : List Char) : Prop where
  start : ∃ c rest, name = c :: rest ∧ is_id_start c = true
  rest : ∀ c ∈ name, is_id_rest c = true

/-- Pieces of texts and references; a reference without braces has a character behind it that ends its
    name, a `$` that opens no reference one that no reference begins with. -/
inductive Plain : List Piece → Prop
  | nil : Plain []
  | text {c : Char} {ps : List Piece} (hc : c ≠ '$') (hps : Plain ps) : Plain (.text c :: ps)
  | braced {name : List Char} {ps : List Piece} (hname : Identifier name) (hps : Plain ps) :
      Plain (.ref name ('$' :: '{' :: name ++ ['}']) :: ps)
  | bare {name : List Char} {c : Char} {ps : List Piece} (hname : Identifier name)
      (hc : c ≠ '$') (hend : is_id_rest c = false) (hps : Plain ps) :
      Plain (.ref name ('$' :: name) :: .text c :: ps)
  | dollar {c : Char} {ps : List Piece} (hc : c ≠ '$') (hbrace : c ≠ '{')
      (hstart : is_id_start c = false) (hps : Plain ps) : Plain (.text '$' :: .text c :: ps)

/-- A value that is a plain template. -/
def Template.Plain (value : String) : Prop := ProfileLoader.Plain (Template.pieces value)

section
variable {ps qs : List Piece} {name rest : List Char} {c : Char} {n : ℕ}

theorem Plain.append (hps : Plain ps) (hqs : Plain qs) : Plain (ps ++ qs) := by
  induction hps with
  | nil => exact hqs
  | text hc _ ih => exact .text hc ih
  | braced hname _ ih => exact .braced hname ih
  | bare hname hc hend _ ih => exact .bare hname hc hend ih
  | dollar hc hbrace hstart _ ih => exact .dollar hc hbrace hstart ih

/-! ### Reading what was written -/

theorem takeWhile_name {p : Char → Bool} (rest : List Char) (hname : ∀ c ∈ name, p c = true)
    (hc : p c = false) :
    (name ++ c :: rest).takeWhile p = name ∧ (name ++ c :: rest).dropWhile p = c :: rest := by
  rw [List.takeWhile_append_of_pos hname, List.dropWhile_append_of_pos hname,
    List.takeWhile_cons_of_neg (by simp [hc]), List.dropWhile_cons_of_neg (by simp [hc])]
  exact ⟨List.append_nil name, rfl⟩

theorem reference_braced (hname : Identifier name) :
    reference ('{' :: name ++ '}' :: rest) = some (name, '{' :: name ++ ['}'], rest) := by
  obtain ⟨i, nm, rfl, hi⟩ := hname.start
  have hread := takeWhile_name rest hname.rest (by decide : is_id_rest '}' = false)
  rw [List.cons_append, reference, if_pos rfl, hread.1, hread.2]
  simp only [hi, if_true]

theorem reference_bare (hname : Identifier name) (hend : is_id_rest c = false) :
    reference (name ++ c :: rest) = some (name, name, c :: rest) := by
  obtain ⟨i, nm, rfl, hi⟩ := hname.start
  have hread := takeWhile_name rest
    (fun d hd => hname.rest d (List.mem_cons_of_mem _ hd)) hend
  have hbrace : i ≠ '{' := by
    rintro rfl
    exact absurd hi (by decide)
  rw [List.cons_append, reference, if_neg hbrace, if_pos hi, hread.1, hread.2]

/-- Plain pieces that are written down are read back. -/
theorem scan_plain (hps : Plain ps) : ∀ n, (ps.flatMap Piece.raw).length ≤ n →
    scan n (ps.flatMap Piece.raw) = ps := by
  induction hps with
  | nil =>
    intro n _
    cases n <;> rfl
  | @text c ps hc _ ih =>
    intro n hn
    rw [List.flatMap_cons] at hn ⊢
    obtain ⟨n, rfl⟩ : ∃ k, n = k + 1 := Nat.exists_eq_add_of_le' (by
      simp only [Piece.raw, List.length_append, List.length_cons, List.length_nil] at hn
      omega)
    have hlen : (ps.flatMap Piece.raw).length ≤ n := by
      simp only [Piece.raw, List.length_append, List.length_cons, List.length_nil] at hn
      omega
    rw [Piece.raw, List.singleton_append, scan, if_neg hc, ih n hlen]
  | @braced name ps hname _ ih =>
    intro n hn
    rw [List.flatMap_cons] at hn ⊢
    obtain ⟨n, rfl⟩ : ∃ k, n = k + 1 := Nat.exists_eq_add_of_le' (by
      simp only [Piece.raw, List.length_append, List.length_cons, List.length_nil] at hn
      omega)
    have hlen : (ps.flatMap Piece.raw).length ≤ n := by
      simp only [Piece.raw, List.length_append, List.length_cons, List.length_nil] at hn
      omega
    have hraw : Piece.raw (.ref name ('$' :: '{' :: name ++ ['}'])) ++ ps.flatMap Piece.raw =
        '$' :: ('{' :: name ++ '}' :: ps.flatMap Piece.raw) := by simp [Piece.raw]
    rw [hraw, scan, if_pos rfl, if_neg (by simp), reference_braced hname]
    simp only [ih n hlen]
    rfl
  | @bare name c ps hname hc hend _ ih =>
    intro n hn
    rw [List.flatMap_cons, List.flatMap_cons] at hn ⊢
    obtain ⟨i, nm, hi, hstart⟩ := hname.start
    obtain ⟨n, rfl⟩ : ∃ k, n = k + 2 := Nat.exists_eq_add_of_le' (by
      simp only [Piece.raw, List.length_append, List.length_cons, List.length_nil] at hn
      omega)
    have hlen : (ps.flatMap Piece.raw).length ≤ n := by
      simp only [Piece.raw, List.length_append, List.length_cons, List.length_nil] at hn
      omega
    have hraw : Piece.raw (.ref name ('$' :: name)) ++ (Piece.raw (.text c) ++
        ps.flatMap Piece.raw) = '$' :: (name ++ c :: ps.flatMap Piece.raw) := by simp [Piece.raw]
    have hdollar : (name ++ c :: ps.flatMap Piece.raw).head? ≠ some '$' := by
      rw [hi, List.cons_append, List.head?_cons]
      rintro ⟨⟩
      exact absurd hstart (by decide)
    rw [hraw, scan, if_pos rfl, if_neg hdollar, reference_bare hname hend]
    dsimp only
    rw [scan, if_neg hc, ih n hlen]
  | @dollar c ps hc hbrace hstart _ ih =>
    intro n hn
    rw [List.flatMap_cons, List.flatMap_cons] at hn ⊢
    obtain ⟨n, rfl⟩ : ∃ k, n = k + 2 := Nat.exists_eq_add_of_le' (by
      simp only [Piece.raw, List.length_append, List.length_cons, List.length_nil] at hn
      omega)
    have hlen : (ps.flatMap Piece.raw).length ≤ n := by
      simp only [Piece.raw, List.length_append, List.length_cons, List.length_nil] at hn
      omega
    have hnone : reference (c :: ps.flatMap Piece.raw) = none := by
      rw [reference, if_neg hbrace, if_neg (by simp [hstart])]
    rw [Piece.raw, Piece.raw, List.singleton_append, List.singleton_append, scan, if_pos rfl,
      if_neg (by simpa using hc), hnone]
    dsimp only
    rw [scan, if_neg hc, ih n hlen]

end

/-! ### Substitution -/

/-- The pieces a piece is replaced by. -/
def Piece.expand (mapping : Env) : Piece → List Piece
  | .ref name raw => (mapping (String.ofList name)).elim [.ref name raw] Template.pieces
  | p => [p]

/-- All values of a mapping are plain. -/
def PlainEnv (mapping : Env) : Prop := ∀ x w, mapping x = some w → Template.Plain w

section
variable {ps : List Piece} {m m' : Env} {value x : String}

theorem mem_refs : x ∈ Template.refs value ↔
    ∃ name raw, Piece.ref name raw ∈ Template.pieces value ∧ String.ofList name = x := by
  rw [Template.refs, List.mem_filterMap]
  constructor
  · rintro ⟨p, hp, hx⟩
    cases p with
    | ref name raw => exact ⟨name, raw, hp, Option.some.inj hx⟩
    | text c => cases hx
    | escaped => cases hx
  · rintro ⟨name, raw, hp, rfl⟩
    exact ⟨.ref name raw, hp, rfl⟩

theorem Plain.not_escaped (hps : Plain ps) : Piece.escaped ∉ ps := by
  induction hps with
  | nil => exact nofun
  | text _ _ ih => simpa using ih
  | braced _ _ ih => simpa using ih
  | bare _ _ _ _ ih => simpa using ih
  | dollar _ _ _ _ ih => simpa using ih

theorem Plain.expand (hps : Plain ps) (hm : PlainEnv m) : Plain (ps.flatMap (Piece.expand m)) := by
  induction hps with
  | nil => exact .nil
  | text hc _ ih => exact .text hc ih
  | @braced name ps hname _ ih =>
    rw [List.flatMap_cons, Piece.expand]
    cases hw : m (String.ofList name) with
    | none => exact .braced hname ih
    | some w => exact (hm _ w hw).append ih
  | @bare name c ps hname hc hend _ ih =>
    rw [List.flatMap_cons, Piece.expand]
    cases hw : m (String.ofList name) with
    | none => exact .bare hname hc hend ih
    | some w => exact (hm _ w hw).append (.text hc ih)
  | dollar hc hbrace hstart _ ih => exact .dollar hc hbrace hstart ih

theorem expand_raw (hps : Piece.escaped ∉ ps) :
    (ps.flatMap (Piece.expand m)).flatMap Piece.raw = ps.flatMap (Piece.subst m) := by
  rw [List.flatMap_assoc]
  refine List.flatMap_congr fun p hp => ?_
  cases p with
  | text c => rfl
  | escaped => exact absurd hp hps
  | ref name raw =>
    rw [Piece.expand, Piece.subst]
    cases m (String.ofList name) with
    | none => exact List.append_nil raw
    | some w => exact pieces_raw w

/-- A plain template with plain values is read as its pieces with the values' pieces in them. -/
theorem pieces_safe_substitute (hv : Template.Plain value) (hm : PlainEnv m) :
    Template.pieces (Template.safe_substitute value m) =
      (Template.pieces value).flatMap (Piece.expand m) := by
  rw [Template.safe_substitute, ← expand_raw hv.not_escaped, Template.pieces, String.toList_ofList]
  exact scan_plain (hv.expand hm) _ le_rfl

theorem plain_safe_substitute (hv : Template.Plain value) (hm : PlainEnv m) :
    Template.Plain (Template.safe_substitute value m) := by
  rw [Template.Plain, pieces_safe_substitute hv hm]
  exact hv.expand hm

/-- The references of the result: unknown names, and the references of the values. -/
theorem refs_safe_substitute (hv : Template.Plain value) (hm : PlainEnv m) :
    x ∈ Template.refs (Template.safe_substitute value m) ↔ ∃ j ∈ Template.refs value,
      (m j = none ∧ x = j) ∨ ∃ w, m j = some w ∧ x ∈ Template.refs w := by
  rw [mem_refs, pieces_safe_substitute hv hm]
  simp only [List.mem_flatMap]
  constructor
  · rintro ⟨name, raw, ⟨p, hp, hmem⟩, rfl⟩
    cases p with
    | text c => cases List.mem_singleton.1 hmem
    | escaped => cases List.mem_singleton.1 hmem
    | ref j used =>
      refine ⟨String.ofList j, mem_refs.2 ⟨j, used, hp, rfl⟩, ?_⟩
      rw [Piece.expand] at hmem
      cases hj : m (String.ofList j) with
      | none =>
        rw [hj] at hmem
        cases List.mem_singleton.1 hmem
        exact .inl ⟨rfl, rfl⟩
      | some w =>
        rw [hj] at hmem
        exact .inr ⟨w, rfl, mem_refs.2 ⟨name, raw, hmem, rfl⟩⟩
  · rintro ⟨j, hj, h⟩
    obtain ⟨name, raw, hp, rfl⟩ := mem_refs.1 hj
    rcases h with ⟨hnone, rfl⟩ | ⟨w, hw, hx⟩
    · refine ⟨name, raw, ⟨_, hp, ?_⟩, rfl⟩
      rw [Piece.expand, hnone]
      exact List.mem_singleton_self _
    · obtain ⟨name', raw', hp', rfl⟩ := mem_refs.1 hx
      refine ⟨name', raw', ⟨_, hp, ?_⟩, rfl⟩
      rw [Piece.expand, hw]
      exact hp'

/-- Only the values that the template refers to have to be plain. -/
theorem refs_safe_substitute_of (hv : Template.Plain value)
    (hm : ∀ x ∈ Template.refs value, ∀ w, m x = some w → Template.Plain w) :
    Template.Plain (Template.safe_substitute value m) ∧ ∀ x,
      x ∈ Template.refs (Template.safe_substitute value m) ↔ ∃ j ∈ Template.refs value,
        (m j = none ∧ x = j) ∨ ∃ w, m j = some w ∧ x ∈ Template.refs w := by
  have hsame : Template.safe_substitute value m = Template.safe_substitute value fun x =>
      if x ∈ Template.refs value then m x else none :=
    safe_substitute_congr fun x hx => (if_pos hx).symm
  have hplain : PlainEnv fun x => if x ∈ Template.refs value then m x else none := by
    intro x w hw
    dsimp only at hw
    split at hw
    · next hx => exact hm x hx w hw
    · cases hw
  rw [hsame]
  refine ⟨plain_safe_substitute hv hplain, fun x => (refs_safe_substitute hv hplain).trans ?_⟩
  exact exists_congr fun j => and_congr_right fun hj => by rw [if_pos hj]

/-- A value without `$`. -/
theorem plain_of_no_dollar (h : '$' ∉ value.toList) :
    Template.Plain value ∧ Template.refs value = [] := by
  have hscan : ∀ l : List Char, '$' ∉ l → ∀ n, l.length ≤ n → scan n l = l.map Piece.text := by
    intro l
    induction l with
    | nil =>
      intro _ n _
      cases n <;> rfl
    | cons c l ih =>
      intro hl n hn
      rw [List.mem_cons, not_or] at hl
      match n, hn with
      | n + 1, hn => rw [scan, if_neg (Ne.symm hl.1), ih hl.2 n (Nat.le_of_succ_le_succ hn), List.map_cons]
  have htext : ∀ l : List Char, '$' ∉ l → ProfileLoader.Plain (l.map Piece.text) := by
    intro l hl
    induction l with
    | nil => exact .nil
    | cons c l ih =>
      rw [List.mem_cons, not_or] at hl
      exact .text (Ne.symm hl.1) (ih hl.2)
  have hpieces : Template.pieces value = value.toList.map Piece.text := hscan _ h _ le_rfl
  refine ⟨?_, ?_⟩
  · rw [Template.Plain, hpieces]
    exact htext _ h
  · rw [Template.refs, hpieces, List.filterMap_map]
    exact List.filterMap_eq_nil_iff.2 fun _ _ => rfl

/-- Two substitutions in one. -/
theorem safe_substitute_comp (hv : Template.Plain value) (hm : PlainEnv m) :
    Template.safe_substitute (Template.safe_substitute value m) m' =
      Template.safe_substitute value fun x =>
        (m x).elim (m' x) fun w => some (Template.safe_substitute w m') := by
  rw [Template.safe_substitute, pieces_safe_substitute hv hm, Template.safe_substitute,
    List.flatMap_assoc]
  refine congrArg String.ofList (List.flatMap_congr fun p _ => ?_)
  cases p with
  | text c => rfl
  | escaped => rfl
  | ref name raw =>
    rw [Piece.expand, Piece.subst]
    cases m (String.ofList name) with
    | none => exact List.append_nil _
    | some w => exact String.toList_ofList.symm

/-- Nothing is known of what the template refers to. -/
theorem safe_substitute_self (hv : Template.Plain value) (h : ∀ x ∈ Template.refs value, m x = none) :
    Template.safe_substitute value m = value := by
  have hraw : (Template.pieces value).flatMap (Piece.subst m) =
      (Template.pieces value).flatMap Piece.raw := by
    refine List.flatMap_congr fun p hp => ?_
    cases p with
    | text c => rfl
    | escaped => exact absurd hp hv.not_escaped
    | ref name raw => rw [Piece.subst, h _ (mem_refs.2 ⟨name, raw, hp, rfl⟩)]; rfl
  rw [Template.safe_substitute, hraw, pieces_raw, String.ofList_toList]

end

end LocalVoice.ProfileLoader
