import LocalVoice.TarExtraction.Extractors

/-! Where the extractors write. `_safe_extract` stays below its destination, whatever the archive; the
    other two do exactly if each member lands inside when it is extracted: their check of the names
    says nothing about the links that a name leads through. -/

namespace LocalVoice.TarExtraction
open LocalVoice.Lib

/-! ### What is below the destination -/

/-- A place in a directory. -/
def Below (dest p : Place) : Prop := dest <+: p ∧ p ≠ dest

/-- No inode has names on both sides. -/
def Apart (inside : Place → Prop) (d : Store) : Prop :=
  ∀ i p p', d.entry p = some (.file i) → d.entry p' = some (.file i) → inside p → inside p'

/-- The destination is a directory, in directories, and no file in it has a name outside. -/
structure Destination (dest : Place) (d : Store) : Prop where
  standing : ∀ p, p <+: dest → d.entry p = some .directory
  own : Apart (Below dest) d

section
variable {limit : ℕ} {dest : Place} {d : Store} {p q : Place}

theorem below_append (dest : Place) (p rest : Place) (h : Below dest p) : Below dest (p ++ rest) := by
  obtain ⟨⟨names, rfl⟩, hne⟩ := h
  refine ⟨(List.prefix_append dest names).trans (List.prefix_append _ rest), ?_⟩
  intro heq
  have hlen := congrArg List.length heq
  simp only [List.length_append] at hlen
  have hnames : names = [] := List.length_eq_zero_iff.1 (by omega)
  exact hne (by rw [hnames, List.append_nil])

/-- What is not there, or a file, under the destination, is not the destination. -/
theorem Destination.below (h : Destination dest d) (hp : dest <+: p)
    (hno : d.entry p ≠ some .directory) : Below dest p := by
  refine ⟨hp, ?_⟩
  rintro rfl
  exact hno (h.standing p (List.prefix_refl p))

/-- What is confined leaves the destination where it is. -/
theorem Destination.standing_of_confined {d' : Store} (h : Destination dest d)
    (hconfined : d.Confined (Below dest) d') (hp : p <+: dest) : d'.entry p = some .directory := by
  have hout : ¬ Below dest p := by
    rintro ⟨hdest, hne⟩
    exact hne (hp.eq_of_length_le hdest.length_le)
  have hlook := hconfined p hout
  rw [Disk.look, Disk.look, h.standing p hp] at hlook
  cases he : d'.entry p with
  | none =>
    rw [he] at hlook
    cases hlook
  | some e =>
    rw [he] at hlook
    cases e with
    | directory => rfl
    | _ => cases hlook

/-! ### Files keep to themselves -/

variable {inside : Place → Prop}

theorem Apart.enter (h : Apart inside d) : Apart inside (d.enter q .directory) := by
  intro i p p' hp hp'
  rw [Disk.entry_enter] at hp hp'
  split at hp
  · cases hp
  · split at hp'
    · cases hp'
    · exact h i p p' hp hp'

theorem Apart.create {b : List UInt8} (h : Apart inside d) : Apart inside (d.create q b) := by
  intro i p p' hp hp' hin
  rw [Disk.entry_create] at hp hp'
  split at hp
  · next heq =>
    obtain rfl : d.fresh = i := Entry.file.inj (Option.some.inj hp)
    split at hp'
    · next heq' => rwa [heq', ← heq]
    · exact absurd (Disk.lt_fresh hp') (Nat.lt_irrefl _)
  · split at hp'
    · obtain rfl : d.fresh = i := Entry.file.inj (Option.some.inj hp')
      exact absurd (Disk.lt_fresh hp) (Nat.lt_irrefl _)
    · exact h i p p' hp hp' hin

theorem Apart.make_dirs {names : List String} (h : Apart inside d) :
    Apart inside (d.make_dirs q names) := by
  induction names generalizing d q with
  | nil => exact h
  | cons c rest ih => exact ih h.enter

/-- A payload that makes no second name. -/
def Payload.plain : Payload → Prop
  | .directory | .file _ => True
  | _ => False

theorem Apart.put_new {x : Payload} (hx : x.plain) (h : Apart inside d) :
    Apart inside (put_new d q x) := by
  cases x with
  | directory => exact h.enter
  | file bytes => exact h.create
  | _ => exact hx.elim

theorem Apart.put_over {c : String} {e : Entry} {x : Payload} (hx : x.plain) (h : Apart inside d) :
    Apart inside (put_over limit d q c e x).1 := by
  cases x with
  | directory => exact h
  | file bytes =>
    simp only [TarExtraction.put_over]
    split
    · split
      · exact h
      · exact h
    · exact h.create
    · exact h
  | _ => exact hx.elim

theorem Apart.extract_at {payload : Store → Option Payload} {dirs : List String} {base : String}
    (hpayload : ∀ d x, payload d = some x → x.plain) (h : Apart inside d) :
    Apart inside (extract_at limit dest payload dirs base d).1 := by
  unfold TarExtraction.extract_at
  split
  · split
    · exact h
    · next hx =>
      split
      · exact h.put_new (hpayload _ _ hx)
      · exact h.put_over (hpayload _ _ hx)
  · split
    · exact h.make_dirs
    · next hx => exact h.make_dirs.put_new (hpayload _ _ hx)
  · exact h

/-! ### `_safe_extract` -/

theorem dropLast_append_base {comps : List String} {base : String} (h : comps.getLast? = some base) :
    comps.dropLast ++ [base] = comps := by
  obtain ⟨dirs, rfl⟩ := List.getLast?_eq_some_iff.1 h
  rw [List.dropLast_concat]

/-- What is resolved below the destination lands there. -/
theorem lands_of_resolve (hdest : Destination dest d) {comps : List String} {base : String} {r : Place}
    {payload : Store → Option Payload} (hpayload : ∀ d x, payload d = some x → x.plain)
    (hbase : comps.getLast? = some base) (hdots : ".." ∉ comps)
    (hresolve : resolve limit d dest comps = some r) (hr : dest <+: r) :
    lands_at limit dest (Below dest) payload comps.dropLast base d := by
  have hnotdots : base ≠ ".." := by
    rintro rfl
    exact hdots (List.mem_of_getLast? hbase)
  rw [resolve, ← dropLast_append_base hbase, Disk.lead_append] at hresolve
  unfold lands_at
  cases hdirs : d.lead limit dest comps.dropLast with
  | other q => trivial
  | dangling q c rest => trivial
  | stuck => trivial
  | missing q c rest =>
    -- the destination is there, so it is not below the name that is missing
    rw [hdirs] at hresolve
    obtain rfl := Option.some.inj hresolve
    have hnone := Disk.lead_missing (Or.inl hdirs)
    have hpre : q ++ [c] <+: q ++ c :: (rest ++ [base]) := ⟨rest ++ [base], by simp⟩
    have hbelow : dest <+: q ++ [c] := by
      rcases List.prefix_or_prefix_of_prefix hr hpre with h | h
      · exact h
      · rw [hdest.standing _ h] at hnone
        cases hnone
    exact hdest.below hbelow (by simp [hnone])
  | dir q =>
    rw [hdirs] at hresolve
    simp only at hresolve ⊢
    intro x hx
    cases he : d.entry (q ++ [base]) with
    | none =>
      rw [Disk.lead_none hnotdots he] at hresolve
      obtain rfl := Option.some.inj hresolve
      exact hdest.below hr (by simp [he])
    | some e =>
      have hplain := hpayload d x hx
      cases x with
      | directory => trivial
      | node e => trivial
      | symlink absolute target => exact hplain.elim
      | file bytes =>
        simp only [lands_over]
        cases hlead : d.lead limit q [base] with
        | other p =>
          rw [hlead] at hresolve
          obtain rfl := Option.some.inj hresolve
          intro i hi
          have hbelow : Below dest p := hdest.below hr (by simp [hi])
          exact Or.inr fun p' hp' => hdest.own i p p' hi hp' hbelow
        | dangling p name rest =>
          cases rest with
          | cons => trivial
          | nil =>
            rw [hlead] at hresolve
            obtain rfl := Option.some.inj hresolve
            have hnone := Disk.lead_missing (Or.inr hlead)
            exact hdest.below hr (by simp [hnone])
        | _ => trivial

theorem brings_plain {earlier : List Member} {kind : Kind} (hkind : kind.plain = true) {d : Store}
    {x : Payload} (h : brings limit dest d earlier kind = some x) : x.plain := by
  cases kind with
  | directory =>
    cases h
    trivial
  | file bytes =>
    cases h
    trivial
  | _ => cases hkind

/-- A member that is taken stays below the destination, and makes no second name. -/
theorem safe_member_keeps (hdest : Destination dest d) (m : Member) :
    d.Confined (Below dest) (safe_member limit dest m d).1 ∧
      Apart (Below dest) (safe_member limit dest m d).1 := by
  unfold safe_member
  split
  · exact ⟨Disk.confined_refl d, hdest.own⟩
  · next hsafe =>
    simp only [Bool.or_eq_true, not_or, Bool.not_eq_true, Bool.not_eq_false'] at hsafe
    obtain ⟨hname, hkind⟩ := hsafe
    split
    · exact ⟨Disk.confined_refl d, hdest.own⟩
    · next r hresolve =>
      split
      · next hr =>
        refine ⟨(extract_member_iff (below_append dest) ([], m)).2 ?_, ?_⟩
        · unfold Lands
          cases hbase : (Path.parts m.name).getLast? with
          | none => trivial
          | some base =>
            refine lands_of_resolve hdest (fun d x hx => brings_plain hkind hx) hbase ?_ hresolve
              (List.isPrefixOf_iff_prefix.1 hr)
            simp only [Member.unsafe_name, Bool.or_eq_false_iff, decide_eq_false_iff_not] at hname
            exact hname.2
        · unfold extract_member
          split
          · exact hdest.own
          · exact Apart.extract_at (fun d x hx => brings_plain hkind hx) hdest.own
      · exact ⟨Disk.confined_refl d, hdest.own⟩

theorem safe_extract_confined (hdest : Destination dest d) (members : List Member) :
    ∀ t ∈ passes (safe_member limit dest) members d, d.Confined (Below dest) t := by
  have hkeeps : ∀ m t, d.Confined (Below dest) t ∧ Apart (Below dest) t →
      d.Confined (Below dest) (safe_member limit dest m t).1 ∧
        Apart (Below dest) (safe_member limit dest m t).1 := by
    rintro m t ⟨hconfined, hown⟩
    have ht : Destination dest t := ⟨fun p hp => hdest.standing_of_confined hconfined hp, hown⟩
    have hkeep : t.Confined (Below dest) (safe_member limit dest m t).1 ∧
        Apart (Below dest) (safe_member limit dest m t).1 := safe_member_keeps ht m
    exact ⟨hconfined.and_then.2 hkeep.1, hkeep.2⟩
  intro t ht
  exact (passes_invariant hkeeps ⟨Disk.confined_refl d, hdest.own⟩ t ht).1

/-! ### `extractall` -/

/-- Each member lands inside, in the disk it is extracted to. -/
def AllLand (limit : ℕ) (dest : Place) (inside : Place → Prop) (members : List Member) (d : Store) :
    Prop :=
  Along (Lands limit dest inside) (extract_member limit dest) (with_earlier [] members) d

theorem extractall_iff (hin : ∀ p rest, inside p → inside (p ++ rest)) {d₀ : Store}
    (hbefore : d₀.Confined inside d) (members : List Member) :
    (∀ t ∈ passes (extract_member limit dest) (with_earlier [] members) d, d₀.Confined inside t) ↔
      AllLand limit dest inside members d :=
  passes_iff (fun m _ ht => ht.and_then.trans (extract_member_iff hin m)) hbefore

/-- Where every member lands inside, the extraction ends confined. -/
theorem extractall_confined (hin : ∀ p rest, inside p → inside (p ++ rest)) {d₀ : Store}
    (hbefore : d₀.Confined inside d) {members : List Member}
    (h : AllLand limit dest inside members d) : d₀.Confined inside (extractall limit dest members d).1 := by
  rcases List.mem_cons.1 (each_mem (extract_member limit dest) (with_earlier [] members) d) with
    hend | hend
  · rw [extractall, hend]
    exact hbefore
  · exact (extractall_iff hin hbefore members).2 h _ hend

/-! ### The temporary directory -/

variable {tmp : Place} {tarball : String} {archive : List UInt8}

/-- Below the destination, or in the temporary directory. -/
def Inside (dest tmp p : Place) : Prop := Below dest p ∨ tmp <+: p

theorem inside_append (dest tmp : Place) (p rest : Place) (h : Inside dest tmp p) :
    Inside dest tmp (p ++ rest) := by
  rcases h with h | h
  · exact Or.inl (below_append dest p rest h)
  · exact Or.inr (h.trans (List.prefix_append p rest))

theorem fetch_confined (dest tmp : Place) (tarball : String) (archive : List UInt8) (d : Store) :
    d.Confined (Inside dest tmp) (fetch tmp tarball archive d) := by
  intro p hp
  have hne : p ≠ tmp ++ [tarball] := by
    rintro rfl
    exact hp (Or.inr (List.prefix_append tmp _))
  have htmp : p ≠ tmp := by
    rintro rfl
    exact hp (Or.inr (List.prefix_refl p))
  rw [fetch, Disk.look_create, if_neg hne, Disk.look_enter, if_neg htmp]

theorem prepare_confined (dest tmp : Place) (tarball : String) (archive : List UInt8) (d : Store) :
    d.Confined (Inside dest tmp) (prepare tmp tarball archive d) := by
  refine (fetch_confined dest tmp tarball archive d).and_then.2 fun p hp => ?_
  rw [prepare, Disk.look_enter, if_neg]
  rintro rfl
  exact hp (Or.inr (List.prefix_append tmp _))

theorem relocate_confined (names : List String) (name : String) (d : Store) :
    d.Confined (Inside dest tmp) (d.relocate (tmp ++ names) (dest ++ [name])) := by
  intro p hp
  refine Disk.look_relocate (fun h => hp (Or.inr ((List.prefix_append _ _).trans h))) fun h => ?_
  refine hp (Or.inl ⟨(List.prefix_append _ _).trans h, ?_⟩)
  rintro rfl
  have hlen := h.length_le
  simp only [List.length_append, List.length_singleton] at hlen
  omega

theorem move_item_confined (names : List String) (name : String) (d : Store) :
    d.Confined (Inside dest tmp) (move_item limit dest (tmp ++ names) name d).1 := by
  have hmove : d.Confined (Inside dest tmp)
      (d.relocate (tmp ++ (names ++ [name])) (dest ++ [name])) := relocate_confined _ name d
  rw [← List.append_assoc] at hmove
  unfold move_item
  split
  · split
    · exact hmove
    · exact Disk.confined_refl d
  · exact hmove
  · split
    · exact Disk.confined_refl d
    · exact hmove

theorem move_items_confined (names : List String) (d : Store) :
    d.Confined (Inside dest tmp) (move_items limit dest (tmp ++ names) d).1 := by
  refine each_invariant (P := fun _ _ => True) (fun name _ t ht _ => ?_) (Disk.confined_refl d)
    (along_true _ _ _)
  exact ht.and_then.2 (move_item_confined names name t)

/-- Without the temporary directory, which was not there before, what is left is below the
    destination. -/
theorem clear_confined {d' : Store} (hfresh : ∀ p, tmp <+: p → d.entry p = none)
    (h : d.Confined (Inside dest tmp) d') : d.Confined (Below dest) (d'.clear tmp) := by
  intro p hp
  by_cases htmp : tmp <+: p
  · rw [look_of_entry (hfresh p htmp)]
    refine look_of_entry ?_
    have hpre : List.isPrefixOf tmp p = true := List.isPrefixOf_iff_prefix.2 htmp
    rw [Disk.entry, Disk.clear, Dict.get?_filterKeys, hpre]
    rfl
  · rw [Disk.look_clear htmp]
    exact h p fun hin => hin.elim hp htmp

/-! ### The disks of a run -/

/-- The disks after each member, in `_download_and_extract`. -/
def download_states (limit : ℕ) (dest : Place) (members : List Member) (d : Store) : List Store :=
  if members.any Member.unsafe_name then []
  else passes (extract_member limit dest) (with_earlier [] members) d

/-- The disks after each member, in `download_and_extract_tarball`. -/
def tarball_states (limit : ℕ) (tmp : Place) (tarball : String) (archive : List UInt8)
    (members : List Member) (d : Store) : List Store :=
  if tarball = "extracted" then []
  else download_states limit (tmp ++ ["extracted"]) members (prepare tmp tarball archive d)

/-- The verified download is confined if and only if its names are refused, or its members land below
    the destination. -/
theorem download_confined_iff (members : List Member) :
    (∀ t ∈ (download_and_extract limit dest members d).1 :: download_states limit dest members d,
      d.Confined (Below dest) t) ↔
    (members.any Member.unsafe_name = false → AllLand limit dest (Below dest) members d) := by
  unfold download_and_extract download_states
  cases members.any Member.unsafe_name with
  | true => simp [Disk.confined_refl]
  | false =>
    simp only [Bool.false_eq_true, if_false, List.forall_mem_cons, forall_const]
    rw [extractall_iff (below_append dest) (Disk.confined_refl d)]
    exact ⟨fun h => h.2, fun h => ⟨extractall_confined (below_append dest) (Disk.confined_refl d) h, h⟩⟩

/-- The tarball is confined if and only if its names are refused, or its members land below the
    destination or in the temporary directory. -/
theorem tarball_confined_iff (hfresh : ∀ p, tmp <+: p → d.entry p = none) (members : List Member) :
    ((∀ t ∈ tarball_states limit tmp tarball archive members d, d.Confined (Inside dest tmp) t) ∧
      d.Confined (Below dest)
        (download_and_extract_tarball limit dest tmp tarball archive members d).1) ↔
    (tarball ≠ "extracted" → members.any Member.unsafe_name = false →
      AllLand limit (tmp ++ ["extracted"]) (Inside dest tmp) members (prepare tmp tarball archive d)) := by
  have hprepared := prepare_confined dest tmp tarball archive d
  unfold download_and_extract_tarball tarball_states download_states
  by_cases htarball : tarball = "extracted"
  · simp only [htarball, if_true, List.not_mem_nil, false_implies, implies_true, ne_eq, not_true_eq_false,
      true_and, iff_true]
    exact clear_confined hfresh (fetch_confined dest tmp "extracted" archive d)
  · simp only [if_neg, ne_eq, htarball, not_false_eq_true, forall_const]
    cases members.any Member.unsafe_name with
    | true => simpa using clear_confined hfresh hprepared
    | false =>
      simp only [Bool.false_eq_true, if_false, forall_const]
      rw [extractall_iff (inside_append dest tmp) hprepared]
      refine ⟨fun h => h.1, fun h => ⟨h, ?_⟩⟩
      have hend := extractall_confined (inside_append dest tmp) hprepared h
      split
      · next d' hd' =>
        rw [hd'] at hend
        exact clear_confined hfresh hend
      · next d' hd' =>
        rw [hd'] at hend
        exact clear_confined hfresh (hend.and_then.2 (move_items_confined _ d'))

end

/-- A disk with a destination and a file outside. -/
def a_disk : Store :=
  ⟨Dict.empty.update [([], .directory), (["srv"], .directory), (["etc"], .directory),
    (["etc", "passwd"], .file 0)], Dict.empty.set 0 [1]⟩

/-- The link `a` leads to `/etc`, and `a/passwd` goes through it. -/
def link_archive : List Member := [⟨"a", .symlink "/etc"⟩, ⟨"a/passwd", .file [2]⟩]

theorem a_disk_entry {p : Place} {e : Entry} (h : a_disk.entry p = some e) :
    (p, e) ∈ [([], .directory), (["srv"], .directory), (["etc"], .directory),
      (["etc", "passwd"], Entry.file 0)] :=
  Dict.mem_items.2 h

theorem a_disk_destination : Destination ["srv"] a_disk := by
  refine ⟨fun p hp => ?_, fun i p p' hp _ hin => ?_⟩
  · obtain ⟨rest, hrest⟩ := hp
    cases p with
    | nil => rfl
    | cons c names =>
      obtain ⟨rfl, hnil⟩ := List.cons.inj hrest
      obtain rfl := (List.append_eq_nil_iff.1 hnil).1
      rfl
  · have hmem := a_disk_entry hp
    simp only [List.mem_cons, Prod.mk.injEq, reduceCtorEq, and_false, false_or, List.not_mem_nil,
      or_false] at hmem
    rw [hmem.1] at hin
    exact absurd hin.1 (by decide)

theorem a_disk_fresh (p : Place) (hp : ["hf_extract"] <+: p) : a_disk.entry p = none := by
  cases h : a_disk.entry p with
  | none => rfl
  | some e =>
    have hmem := a_disk_entry h
    simp only [List.mem_cons, Prod.mk.injEq, List.not_mem_nil, or_false] at hmem
    rcases hmem with ⟨rfl, -⟩ | ⟨rfl, -⟩ | ⟨rfl, -⟩ | ⟨rfl, -⟩ <;> exact absurd hp (by decide)

end LocalVoice.TarExtraction
