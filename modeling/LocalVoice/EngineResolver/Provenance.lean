import Mathlib.Data.Option.Basic
import LocalVoice.EngineResolver.Sidecars

/-! What an `hf_bundle` sidecar says of the engine beside it, over a run of `build_report`. A bundle
    is unpacked over a directory that may hold engines of other origin, and then every engine file
    in it gets a sidecar with the hash of the bundle; if something is missing afterwards none does.
    So a sidecar is true as long as what is left in the directory and what is replaced in it has the
    origin that the sidecars say. -/

namespace LocalVoice.EngineResolver
open LocalVoice.Lib

section
variable (host : HostSignature)

/-- The bundle hash that a sidecar records for the host. -/
def Parsed.bundle_recorded : Parsed → Option String
  | .object m =>
    if m.host = some host.to_dict ∧ m.source = .str "hf_bundle" then
      match m.bundle_sha256 with
      | .str h => some h
      | _ => none
    else none
  | _ => none

/-- The bundle hash that the sidecar of an engine records. -/
def recorded (disk : FileTree File) (p : Path) : Option String :=
  (disk.read (meta_path p)).bind fun f => f.json.bundle_recorded host

/-- Beside the bytes `b` a sidecar records the bundle hash `h`. -/
def Records (disk : FileTree File) (p : Path) (b : List UInt8) (h : String) : Prop :=
  (∃ f, disk.read p = some f ∧ f.bytes = b) ∧ recorded host disk p = some h

/-- The bytes are those of a member of a bundle that was downloaded for the host with this hash. -/
def Downloaded (downloads : List Download) (b : List UInt8) (h : String) : Prop :=
  ∃ d ∈ downloads, d.host_key = host.key ∧ d.sha256 = h ∧
    ∃ q f, d.members.read q = some f ∧ f.bytes = b

/-- The engine has a sidecar that can be written. -/
structure Writable (disk : FileTree File) (p : Path) : Prop where
  engine : (disk.read p).isSome = true
  tmp : disk.is_dir (tmp_path p) = false
  sidecar : disk.is_dir (meta_path p) = false

variable (sha256 : List UInt8 → String) (dumps : Meta → List UInt8)

/-- The resolver writes the sidecar of the engine after the bundle was unpacked. -/
structure Rewritten (spec : RequiredEngine) (disk : FileTree File) (p : Path) : Prop where
  complete : spec.complete sha256 disk = true
  found : p ∈ iter_extracted_engine_files disk spec.dir
  writable : Writable disk p

/-- A bundle that may be unpacked over the directory of a spec. -/
structure Matching (spec : RequiredEngine) (s : State) (info : FileInfo) (members : FileTree File) :
    Prop where
  /-- The manifest gives a hash, or none. -/
  declared : info.sha256 ≠ .str ""
  /-- What the resolver will write a sidecar for, or accept for a locked spec, comes from the
      bundle, or came from one with its hash. -/
  own : spec.complete sha256 (FileTree.unpack s.disk spec.dir members) = true →
    ∀ p, p ∈ iter_extracted_engine_files (FileTree.unpack s.disk spec.dir members) spec.dir ∨
      p = spec.engine_path ∧ spec.require_published_integrity = true →
    (∃ q f, p = q.under spec.dir ∧ members.read q = some f) ∨
      ∃ f, FileTree.read (FileTree.unpack s.disk spec.dir members) p = some f ∧
        ∀ h, info.sha256 = .str h → Downloaded host s.downloads f.bytes h
  /-- A sidecar that the bundle brings is overwritten. -/
  carried : ∀ q f, members.read (meta_path q) = some f → f.json.bundle_recorded host ≠ none →
    Rewritten sha256 spec (FileTree.unpack s.disk spec.dir members) (q.under spec.dir)
  /-- A sidecar beside an engine that the bundle replaces is overwritten, or names this bundle. -/
  beside : ∀ q f h, members.read q = some f → recorded host s.disk (q.under spec.dir) = some h →
    Rewritten sha256 spec (FileTree.unpack s.disk spec.dir members) (q.under spec.dir) ∨
      info.sha256 = .str h
  /-- The engine of a locked spec is not named like a sidecar. -/
  named : spec.require_published_integrity = true →
    ∀ q, spec.engine_path ≠ meta_path q ∧ spec.engine_path ≠ tmp_path q

/-- The call comes to unpack the bundle. -/
def Call.Unpacks (c : Call) (s : State) (info : FileInfo) (sha : String) (members : FileTree File) :
    Prop :=
  c.spec.resolve_local sha256 dumps host c.force_rebuild s.disk = none ∧
    s.disk.is_dir (meta_path c.spec.engine_path) = false ∧
      c.spec.fetch sha256 host c.hub = some (info, sha, members)

/-- The state with the sidecar of the spec taken away. -/
def Call.unlinked (c : Call) (s : State) : State :=
  { s with disk := s.disk.erase (meta_path c.spec.engine_path) }

/-- A call after which the sidecars are as true as before: no sidecar has a sidecar, and a bundle
    that it unpacks matches the directory. -/
structure Traceable (s : State) (c : Call) : Prop where
  plain : ∀ p, recorded host s.disk (meta_path p) = none
  bundle : ∀ info sha members, c.Unpacks host sha256 dumps s info sha members →
    Matching host sha256 c.spec (c.unlinked s) info members

/-! ### Names -/

theorem suffix_inj {ext end' : String} (h : ext.length ≤ end'.length) (n : String)
    (hs : PyText.endswith (n ++ end') ext = true) : PyText.endswith end' ext = true := by
  simp only [PyText.endswith, List.isSuffixOf_iff_suffix, String.toList_append] at hs ⊢
  exact List.suffix_of_suffix_length_le hs (List.suffix_append _ _)
    (by simpa only [String.length_toList] using h)

/-- What the resolver appends to the name of an engine makes no name of an engine. -/
theorem not_engine_name {end' : String} (n : String)
    (h : end' = ".meta.json" ∨ end' = ".meta.json.tmp") : is_engine_name (n ++ end') = false := by
  have hend : ∀ ext ∈ [".engine", ".plan"], PyText.endswith (n ++ end') ext = false := by
    intro ext hext
    refine Bool.eq_false_iff.2 fun hs => ?_
    rcases h with rfl | rfl <;>
    · simp only [List.mem_cons, List.not_mem_nil, or_false] at hext
      rcases hext with rfl | rfl <;>
        exact absurd (suffix_inj (by decide) n hs) (by decide)
  simp only [is_engine_name, List.any_cons, List.any_nil, Bool.or_false]
  rw [hend ".engine" (by simp), hend ".plan" (by simp)]
  simp

theorem meta_ne_tmp (p q : Path) : meta_path p ≠ tmp_path q := by
  rw [tmp_path, meta_path, meta_path, Path.append_append]
  exact Path.append_ne (by decide) (by decide) (by decide)

theorem meta_inj {p q : Path} : meta_path p = meta_path q ↔ p = q := Path.append_inj

theorem tmp_inj {p q : Path} : tmp_path p = tmp_path q ↔ p = q := by
  rw [tmp_path, tmp_path, Path.append_inj, meta_inj]

/-- A path that `_iter_extracted_engine_files` may return. -/
def EngineName (p : Path) : Prop := is_engine_name p.name = true

instance : DecidablePred EngineName := fun p =>
  inferInstanceAs (Decidable (is_engine_name p.name = true))

theorem not_engine_meta (p : Path) : ¬ EngineName (meta_path p) := by
  intro h
  exact absurd h (by simp [EngineName, meta_path, Path.append, not_engine_name])

theorem not_engine_tmp (p : Path) : ¬ EngineName (tmp_path p) := by
  intro h
  rw [tmp_path, meta_path, Path.append_append] at h
  exact absurd h (by simp [EngineName, Path.append, not_engine_name])

theorem engineName_of_mem {disk : FileTree File} {dir : List String} {p : Path}
    (h : p ∈ iter_extracted_engine_files disk dir) : EngineName p :=
  (List.mem_filter.1 h).2

/-! ### Writing the sidecars -/

theorem read_sidecar {disk t : FileTree File} {e : Path} {m : Meta}
    (h : put_sidecar dumps disk e m = some t) : t.read (meta_path e) = some ⟨dumps m, .object m⟩ := by
  rw [FileTree.read_eq_some, put_sidecar_get dumps h, if_pos rfl]

section
variable (info : FileInfo) (onnx_sha : Json)

/-- One sidecar of the loop: it is written, or it cannot be. -/
theorem write_bundle_meta_cases (disk : FileTree File) (e : Path) :
    (write_bundle_meta sha256 dumps host info onnx_sha disk e = disk ∧ ¬ Writable disk e) ∨
      ∃ m, put_sidecar dumps disk e m =
          some (write_bundle_meta sha256 dumps host info onnx_sha disk e) ∧
        m.bundle_sha256 = info.sha256 := by
  unfold write_bundle_meta write_meta
  cases hread : disk.read e with
  | none => exact Or.inl ⟨rfl, fun hw => by simpa [hread] using hw.engine⟩
  | some f =>
    simp only [Option.bind_some]
    cases hput : put_sidecar dumps disk e _ with
    | none =>
      refine Or.inl ⟨rfl, fun hw => ?_⟩
      simp [put_sidecar, hw.tmp, hw.sidecar] at hput
    | some t => exact Or.inr ⟨_, hput, rfl⟩

/-- One sidecar of the loop leaves everything but the sidecar and its temporary file. -/
theorem write_bundle_meta_get (disk : FileTree File) (e : Path) {p : Path} (hm : p ≠ meta_path e)
    (ht : p ≠ tmp_path e) :
    Dict.get? (write_bundle_meta sha256 dumps host info onnx_sha disk e) p = disk.get? p := by
  rcases write_bundle_meta_cases host sha256 dumps info onnx_sha disk e with ⟨hsame, -⟩ | ⟨m, hput, -⟩
  · rw [hsame]
  · rw [put_sidecar_get dumps hput, if_neg hm, if_neg ht]

/-- The sidecar of another engine stays as it is. -/
theorem write_bundle_meta_other (disk : FileTree File) {e p : Path} (hne : p ≠ e) :
    Dict.get? (write_bundle_meta sha256 dumps host info onnx_sha disk e) (meta_path p) =
      disk.get? (meta_path p) :=
  write_bundle_meta_get host sha256 dumps info onnx_sha disk e (fun h => hne (meta_inj.1 h))
    (meta_ne_tmp p e)

theorem recorded_congr {disk t : FileTree File} {p : Path}
    (hm : t.get? (meta_path p) = disk.get? (meta_path p)) :
    recorded host t p = recorded host disk p := by
  simp only [recorded, FileTree.read_congr hm]

/-- One sidecar of the loop leaves another engine as writable as it was. -/
theorem writable_write_bundle_meta {disk : FileTree File} {e p : Path} (hp : EngineName p)
    (hne : p ≠ e) (h : Writable disk p) :
    Writable (write_bundle_meta sha256 dumps host info onnx_sha disk e) p := by
  have hengine : Dict.get? (write_bundle_meta sha256 dumps host info onnx_sha disk e) p =
      disk.get? p := by
    refine write_bundle_meta_get host sha256 dumps info onnx_sha disk e ?_ ?_
    · rintro rfl
      exact not_engine_meta e hp
    · rintro rfl
      exact not_engine_tmp e hp
  have htmp : Dict.get? (write_bundle_meta sha256 dumps host info onnx_sha disk e) (tmp_path p) =
      disk.get? (tmp_path p) :=
    write_bundle_meta_get host sha256 dumps info onnx_sha disk e (meta_ne_tmp e p).symm
      fun h => hne (tmp_inj.1 h)
  refine ⟨?_, ?_, ?_⟩
  · rw [FileTree.read_congr hengine]
    exact h.engine
  · simp only [FileTree.is_dir, htmp]
    exact h.tmp
  · simp only [FileTree.is_dir, write_bundle_meta_other host sha256 dumps info onnx_sha disk hne]
    exact h.sidecar

/-- What the sidecar of an engine records after one step of the loop. -/
theorem write_bundle_meta_recorded (disk : FileTree File) (e : Path) {p : Path} {h : String}
    (hrec : recorded host (write_bundle_meta sha256 dumps host info onnx_sha disk e) p = some h) :
    info.sha256 = .str h ∨ (p = e → ¬ Writable disk p) ∧ recorded host disk p = some h := by
  by_cases hp : p = e
  · subst hp
    rcases write_bundle_meta_cases host sha256 dumps info onnx_sha
      disk p with ⟨hsame, hw⟩ | ⟨m, hput, hsha⟩
    · rw [hsame] at hrec
      exact Or.inr ⟨fun _ => hw, hrec⟩
    · rw [recorded, read_sidecar dumps hput, Option.bind_some] at hrec
      refine Or.inl ?_
      simp only [Parsed.bundle_recorded, hsha] at hrec
      split at hrec
      · split at hrec
        · next hstr =>
          obtain rfl := Option.some.inj hrec
          exact hstr
        · cases hrec
      · cases hrec
  · rw [recorded_congr host (write_bundle_meta_other host sha256 dumps info onnx_sha disk hp)] at hrec
    exact Or.inr ⟨fun he => absurd he hp, hrec⟩

/-- The loop leaves what is no sidecar or temporary file of one of its engines. -/
theorem write_bundle_metas_get (engines : List Path) (disk : FileTree File) {p : Path}
    (h : ∀ e ∈ engines, p ≠ meta_path e ∧ p ≠ tmp_path e) :
    Dict.get? (write_bundle_metas sha256 dumps host info onnx_sha engines disk) p = disk.get? p := by
  induction engines generalizing disk with
  | nil => rfl
  | cons e rest ih =>
    exact (ih _ fun a ha => h a (List.mem_cons_of_mem e ha)).trans
      (write_bundle_meta_get host sha256 dumps info onnx_sha disk e (h e (by simp)).1
        (h e (by simp)).2)

/-- A file that the loop leaves, and that is no sidecar it wrote, was there. -/
theorem write_bundle_metas_read (engines : List Path) (disk : FileTree File) {p : Path} {f : File}
    (h : ∀ e ∈ engines, p ≠ meta_path e)
    (hf : FileTree.read (write_bundle_metas sha256 dumps host info onnx_sha engines disk) p = some f) :
    disk.read p = some f := by
  induction engines generalizing disk with
  | nil => exact hf
  | cons e rest ih =>
    have hrest := ih _ (fun a ha => h a (List.mem_cons_of_mem e ha)) hf
    rcases write_bundle_meta_cases host sha256 dumps info onnx_sha
      disk e with ⟨hsame, -⟩ | ⟨m, hput, -⟩
    · rwa [hsame] at hrest
    · rw [FileTree.read_eq_some, put_sidecar_get dumps hput, if_neg (h e (by simp))] at hrest
      split at hrest
      · cases hrest
      · exact FileTree.read_eq_some.2 hrest

/-- After the loop the sidecar of one of its engines records the hash of the bundle, or it could not
    be written and records what it did. -/
theorem write_bundle_metas_recorded (engines : List Path) (disk : FileTree File)
    (hnames : ∀ e ∈ engines, EngineName e) {p : Path} (hp : p ∈ engines) {h : String}
    (hrec : recorded host (write_bundle_metas sha256 dumps host info onnx_sha engines disk) p =
      some h) :
    info.sha256 = .str h ∨ ¬ Writable disk p ∧ recorded host disk p = some h := by
  induction engines generalizing disk with
  | nil => cases hp
  | cons e rest ih =>
    by_cases hmem : p ∈ rest
    · rcases ih _ (fun a ha => hnames a (List.mem_cons_of_mem e ha)) hmem hrec with hsha | ⟨hw, hrec'⟩
      · exact Or.inl hsha
      · rcases write_bundle_meta_recorded host sha256 dumps info onnx_sha disk e hrec' with
          hsha | ⟨hself, hrec''⟩
        · exact Or.inl hsha
        · refine Or.inr ⟨fun hwrit => ?_, hrec''⟩
          by_cases he : p = e
          · exact hself he hwrit
          · exact hw (writable_write_bundle_meta host sha256 dumps info onnx_sha (hnames p hp) he
              hwrit)
    · obtain rfl : p = e := (List.mem_cons.1 hp).resolve_right hmem
      -- the rest of the loop is about other engines
      have hkept := write_bundle_metas_get host sha256 dumps info
        onnx_sha rest (write_bundle_meta sha256 dumps host info onnx_sha disk p) (p := meta_path p)
          fun a ha => ⟨fun h => hmem (meta_inj.1 h ▸ ha), meta_ne_tmp p a⟩
      rcases write_bundle_meta_recorded host sha256 dumps info onnx_sha disk p
        ((recorded_congr host hkept).symm.trans hrec) with hsha | ⟨hself, hrec'⟩
      · exact Or.inl hsha
      · exact Or.inr ⟨hself rfl, hrec'⟩

end

/-! ### Unpacking a bundle -/

section
variable {host sha256 dumps} {spec : RequiredEngine} {s : State} {info : FileInfo}
  {members : FileTree File}

/-- A sidecar after unpacking is one the bundle brings or one that was there. -/
theorem recorded_unpack {p : Path} {h : String}
    (hrec : recorded host (FileTree.unpack s.disk spec.dir members) p = some h) :
    (∃ q f, p = q.under spec.dir ∧ members.read (meta_path q) = some f ∧
      f.json.bundle_recorded host ≠ none) ∨ recorded host s.disk p = some h := by
  obtain ⟨f, hf, hjson⟩ := Option.bind_eq_some_iff.1 hrec
  rw [FileTree.read_eq_some, FileTree.get?_unpack] at hf
  split at hf
  · exact Or.inr (Option.bind_eq_some_iff.2 ⟨f, FileTree.read_eq_some.2 hf, hjson⟩)
  · next q hq =>
    rcases Option.or_eq_some_iff.1 hf with hmem | ⟨-, hold⟩
    · -- the path of the sidecar is below the directory, and so is that of the engine
      have hbelow : p.below spec.dir = some ⟨q.parents, (p.name)⟩ := by
        rw [Path.below_eq_some] at hq ⊢
        have hparents := congrArg Path.parents hq
        obtain ⟨d, n⟩ := p
        obtain rfl : d = spec.dir ++ q.parents := hparents
        rfl
      have hname : q = meta_path ⟨q.parents, p.name⟩ := by
        have hname := congrArg Path.name (Path.below_eq_some.1 hq)
        obtain ⟨d, n⟩ := q
        simp only [Path.under, meta_path, Path.append] at hname ⊢
        rw [hname]
      refine Or.inl ⟨⟨q.parents, p.name⟩, f, Path.below_eq_some.1 hbelow, ?_, ?_⟩
      · rw [← hname]
        exact FileTree.read_eq_some.2 hmem
      · rw [hjson]
        simp
    · split at hold
      · cases hold
      · exact Or.inr (Option.bind_eq_some_iff.2 ⟨f, FileTree.read_eq_some.2 hold, hjson⟩)

/-- A file after unpacking is one of the bundle or one that was there. -/
theorem read_unpack {p : Path} {f : File}
    (hf : FileTree.read (FileTree.unpack s.disk spec.dir members) p = some f) :
    (∃ q, p = q.under spec.dir ∧ members.read q = some f) ∨ s.disk.read p = some f := by
  rw [FileTree.read_eq_some, FileTree.get?_unpack] at hf
  split at hf
  · exact Or.inr (FileTree.read_eq_some.2 hf)
  · next q hq =>
    rcases Option.or_eq_some_iff.1 hf with hmem | ⟨-, hold⟩
    · exact Or.inl ⟨q, Path.below_eq_some.1 hq, FileTree.read_eq_some.2 hmem⟩
    · split at hold
      · cases hold
      · exact Or.inr (FileTree.read_eq_some.2 hold)

/-- A member of the bundle stands where it belongs. -/
theorem unpack_read {q : Path} {f : File} (hf : members.read q = some f) :
    FileTree.read (FileTree.unpack s.disk spec.dir members) (q.under spec.dir) = some f := by
  rw [FileTree.read_eq_some, FileTree.get?_unpack, Path.below_under]
  show (members.get? q).or _ = _
  rw [FileTree.read_eq_some.1 hf]
  rfl

/-- The bytes of a member are downloaded once the bundle is counted among the downloads. -/
theorem downloaded_member {sha h : String} {q : Path} {f : File} (hinfo : info.sha256 = .str h)
    (hne : info.sha256 ≠ .str "") (hsha : info.sha256.truthy = true → info.sha256 = .str sha)
    (hf : members.read q = some f) (downloads : List Download) :
    Downloaded host (if info.sha256.truthy then ⟨host.key, sha, members⟩ :: downloads else downloads)
      f.bytes h := by
  have htruthy : info.sha256.truthy = true := by
    rw [hinfo] at hne ⊢
    simpa [Json.truthy] using hne
  have hsame : sha = h := by simpa [hinfo] using (hsha htruthy).symm
  rw [if_pos htruthy]
  exact ⟨_, List.mem_cons_self, rfl, hsame, q, f, hf, rfl⟩

theorem Downloaded.mono {b : List UInt8} {h : String} {ds ds' : List Download}
    (hd : Downloaded host ds b h) (hsub : ∀ d ∈ ds, d ∈ ds') : Downloaded host ds' b h := by
  obtain ⟨d, hmem, hrest⟩ := hd
  exact ⟨d, hsub d hmem, hrest⟩

/-- A sidecar that the resolver does not overwrite after unpacking was there beside the same bytes,
    or is true of the bundle. -/
theorem records_unpack (hm : Matching host sha256 spec s info members) {sha : String}
    (hsha : info.sha256.truthy = true → info.sha256 = .str sha) {p : Path} {b : List UInt8}
    {h : String} (hrec : Records host (FileTree.unpack s.disk spec.dir members) p b h)
    (hkept : ¬ Rewritten sha256 spec (FileTree.unpack s.disk spec.dir members) p) :
    Records host s.disk p b h ∨
      Downloaded host (if info.sha256.truthy then ⟨host.key, sha, members⟩ :: s.downloads
        else s.downloads) b h := by
  obtain ⟨⟨f, hf, rfl⟩, hside⟩ := hrec
  rcases recorded_unpack hside with ⟨q, f', rfl, hq, hnone⟩ | hold
  · exact absurd (hm.carried q f' hq hnone) hkept
  · rcases read_unpack hf with ⟨q, rfl, hq⟩ | hread
    · rcases hm.beside q f h hq hold with hw | hinfo
      · exact absurd hw hkept
      · exact Or.inr (downloaded_member hinfo hm.declared hsha hq s.downloads)
    · exact Or.inl ⟨⟨f, hread, rfl⟩, hold⟩

/-- No sidecar of a sidecar appears. -/
theorem plain_unpack (hm : Matching host sha256 spec s info members)
    (hplain : ∀ p, recorded host s.disk (meta_path p) = none) (p : Path) :
    recorded host (FileTree.unpack s.disk spec.dir members) (meta_path p) = none := by
  refine Option.eq_none_iff_forall_ne_some.2 fun h hrec => ?_
  rcases recorded_unpack hrec with ⟨q, f, hq, hmem, hnone⟩ | hold
  · have hw := hm.carried q f hmem hnone
    rw [← hq] at hw
    exact not_engine_meta p (engineName_of_mem hw.found)
  · rw [hplain p] at hold
    cases hold

/-! ### One call -/

/-- A bundle that is unpacked was checked as the spec asks, and against its hash if there is one. -/
theorem fetch_checked {hub : Hub} {sha : String}
    (h : spec.fetch sha256 host hub = some (info, sha, members)) :
    spec.published info = true ∧ (info.sha256.truthy = true → info.sha256 = .str sha) := by
  simp only [RequiredEngine.fetch, Option.bind_eq_bind, Option.bind_eq_some_iff] at h
  obtain ⟨files, -, info', -, _, hpub, tarball, -, _, hintact, members', -, heq⟩ := h
  obtain ⟨rfl, rfl, rfl⟩ : info' = info ∧ sha256 tarball.bytes = sha ∧ members' = members := by
    simpa using heq
  have hpub' : spec.published info' = true := (Option.guard_eq_some' _).1 hpub
  have hintact' : spec.intact sha256 info' tarball.bytes = true := (Option.guard_eq_some' _).1 hintact
  refine ⟨hpub', fun htruthy => ?_⟩
  simpa [RequiredEngine.intact, htruthy] using (Bool.and_eq_true_iff.1 hintact').2

/-- `_try_hf_resolve` without a bundle to unpack, with one that leaves something missing, and with
    one that is followed by its sidecars. -/
theorem try_hf_resolve_cases (host : HostSignature) (sha256 : List UInt8 → String)
    (dumps : Meta → List UInt8) (spec : RequiredEngine) (hub : Hub) (s : State) :
    spec.try_hf_resolve sha256 dumps host hub s = (s, false) ∨
    ∃ info sha members, spec.fetch sha256 host hub = some (info, sha, members) ∧
      (spec.try_hf_resolve sha256 dumps host hub s).1.downloads =
        (if info.sha256.truthy then ⟨host.key, sha, members⟩ :: s.downloads else s.downloads) ∧
      ((spec.try_hf_resolve sha256 dumps host hub s).2 = false ∧
          (spec.try_hf_resolve sha256 dumps host hub s).1.disk = FileTree.unpack s.disk spec.dir members ∧
          ¬ spec.complete sha256 (FileTree.unpack s.disk spec.dir members) = true ∨
        ∃ onnx_sha, spec.complete sha256 (FileTree.unpack s.disk spec.dir members) = true ∧
          (spec.try_hf_resolve sha256 dumps host hub s).1.disk =
            write_bundle_metas sha256 dumps host info onnx_sha (iter_extracted_engine_files
              (FileTree.unpack s.disk spec.dir members) spec.dir)
              (FileTree.unpack s.disk spec.dir members)) := by
  cases hfetch : spec.fetch sha256 host hub with
  | none => exact Or.inl (by rw [RequiredEngine.try_hf_resolve, hfetch])
  | some bundle =>
    obtain ⟨info, sha, members⟩ := bundle
    refine Or.inr ⟨info, sha, members, rfl, ?_⟩
    simp only [RequiredEngine.try_hf_resolve, hfetch]
    cases hcomplete : spec.complete sha256 (FileTree.unpack s.disk spec.dir members) with
    | false => exact ⟨rfl, Or.inl ⟨rfl, rfl, by simp⟩⟩
    | true =>
      have honnx := (Bool.and_eq_true_iff.1 hcomplete).2
      obtain ⟨onnx_sha, honnx⟩ := Option.isSome_iff_exists.1 honnx
      simp only [honnx]
      exact ⟨trivial, Or.inr ⟨onnx_sha, trivial, rfl⟩⟩

/-- A sidecar after `_try_hf_resolve` was there beside the same bytes, or is true. -/
theorem try_hf_resolve_records {hub : Hub}
    (hplain : ∀ p, recorded host s.disk (meta_path p) = none)
    (hmatch : ∀ info sha members, spec.fetch sha256 host hub = some (info, sha, members) →
      Matching host sha256 spec s info members) {p : Path} {b : List UInt8} {h : String}
    (hrec : Records host (spec.try_hf_resolve sha256 dumps host hub s).1.disk p b h) :
    Records host s.disk p b h ∨
      Downloaded host (spec.try_hf_resolve sha256 dumps host hub s).1.downloads b h := by
  rcases try_hf_resolve_cases host sha256 dumps spec hub s with
    hnone | ⟨info, sha, members, hfetch, hdownloads,
      ⟨-, hdisk, hcomplete⟩ | ⟨onnx_sha, hcomplete, hdisk⟩⟩
  · rw [hnone] at hrec
    exact Or.inl hrec
  · rw [hdisk] at hrec
    rw [hdownloads]
    exact records_unpack (hmatch _ _ _ hfetch) (fetch_checked hfetch).2 hrec
      fun hw => hcomplete hw.complete
  · have hm := hmatch _ _ _ hfetch
    have hsha := (fetch_checked hfetch).2
    rw [hdisk] at hrec
    rw [hdownloads]
    obtain ⟨⟨f, hf, rfl⟩, hside⟩ := hrec
    -- the file is no sidecar of the loop, since none of these has a sidecar
    have hnames : ∀ e ∈ iter_extracted_engine_files (FileTree.unpack s.disk spec.dir members) spec.dir,
        EngineName e := fun e he => engineName_of_mem he
    have hnot : ∀ e ∈ iter_extracted_engine_files (FileTree.unpack s.disk spec.dir members) spec.dir,
        p ≠ meta_path e := by
      rintro e he rfl
      rw [recorded_congr host (write_bundle_metas_get host sha256 dumps info onnx_sha _ _
        (p := meta_path (meta_path e)) fun a ha => ⟨fun heq =>
          not_engine_meta e (meta_inj.1 heq ▸ hnames a ha), meta_ne_tmp _ a⟩),
        plain_unpack hm hplain] at hside
      cases hside
    have hread := write_bundle_metas_read host sha256 dumps info onnx_sha _ _ hnot hf
    by_cases hp : p ∈ iter_extracted_engine_files (FileTree.unpack s.disk spec.dir members) spec.dir
    · rcases write_bundle_metas_recorded host sha256 dumps info onnx_sha _ _ hnames hp hside with
        hinfo | ⟨hw, hold⟩
      · rcases hm.own hcomplete p (Or.inl hp) with ⟨q, f', rfl, hq⟩ | ⟨f', hf', hdown⟩
        · obtain rfl : f = f' := Option.some.inj (hread.symm.trans (unpack_read hq))
          exact Or.inr (downloaded_member hinfo hm.declared hsha hq s.downloads)
        · obtain rfl : f = f' := Option.some.inj (hread.symm.trans hf')
          refine Or.inr ((hdown h hinfo).mono fun d hd => ?_)
          split
          · exact List.mem_cons_of_mem _ hd
          · exact hd
      · exact records_unpack hm hsha ⟨⟨f, hread, rfl⟩, hold⟩ fun hr => hw hr.writable
    · have hold : recorded host (FileTree.unpack s.disk spec.dir members) p = some h := by
        rw [← hside]
        refine (recorded_congr host (write_bundle_metas_get host sha256 dumps info onnx_sha _ _
          (p := meta_path p) fun a ha => ⟨fun heq => hp ?_, meta_ne_tmp p a⟩)).symm
        rwa [meta_inj.1 heq]
      exact records_unpack hm hsha ⟨⟨f, hread, rfl⟩, hold⟩ fun hr => hp hr.found

/-- The sidecar of a migration is no `hf_bundle` sidecar. -/
theorem migrate_source {d d' : Directory}
    (h : migrate_existing_engine sha256 host d = some (d', true)) :
    ∃ m, d'.sidecar = .object m ∧ m.source = .str "existing_install_migration" := by
  unfold migrate_existing_engine at h
  split at h
  · split at h
    · simp at h
    · split at h
      · obtain rfl : _ = d' := congrArg Prod.fst (Option.some.inj h)
        exact ⟨_, rfl, rfl⟩
      · simp at h
      · simp at h
      · cases h
      · cases h
      · split at h
        · obtain rfl : _ = d' := congrArg Prod.fst (Option.some.inj h)
          exact ⟨_, rfl, rfl⟩
        · simp at h
  · simp at h

/-- Without HuggingFace the disk stays as it is, or the sidecar of a migration is written. -/
theorem resolve_local_disk {force_rebuild : Bool} {disk disk' : FileTree File} {ok : Bool}
    (h : spec.resolve_local sha256 dumps host force_rebuild disk = some (disk', ok)) :
    disk' = disk ∨ ∃ m, put_sidecar dumps disk spec.engine_path m = some disk' ∧
      m.source = .str "existing_install_migration" := by
  unfold RequiredEngine.resolve_local at h
  split at h
  · simp_all
  · split at h
    · simp_all
    · split at h
      · split at h
        · simp_all
        · next disk'' hmig =>
          obtain rfl : disk'' = disk' := congrArg Prod.fst (Option.some.inj h)
          unfold migrate at hmig
          split at hmig
          · cases hmig
          · cases hmig
          · next d hd =>
            obtain ⟨m, hm, hsource⟩ := migrate_source hd
            rw [hm] at hmig
            obtain ⟨t, ht, heq⟩ := Option.map_eq_some_iff.1 hmig
            obtain rfl := Option.some.inj heq
            exact Or.inr ⟨m, ht, hsource⟩
        · cases h
      · cases h

/-- A sidecar of another source makes no record. -/
theorem records_put_sidecar {disk t : FileTree File} {e p : Path} {m : Meta} {b : List UInt8}
    {h : String}
    (hput : put_sidecar dumps disk e m = some t) (hsource : m.source ≠ .str "hf_bundle")
    (hplain : recorded host disk (meta_path e) = none) (hrec : Records host t p b h) :
    Records host disk p b h := by
  obtain ⟨⟨f, hf, rfl⟩, hside⟩ := hrec
  have hget := put_sidecar_get dumps hput
  by_cases hp : p = e
  · subst hp
    rw [recorded, read_sidecar dumps hput, Option.bind_some] at hside
    simp [Parsed.bundle_recorded, hsource] at hside
  · have hold : recorded host t p = recorded host disk p := by
      refine recorded_congr host ?_
      rw [hget, if_neg fun heq => hp (meta_inj.1 heq), if_neg (meta_ne_tmp p e)]
    rw [hold] at hside
    rw [FileTree.read_eq_some, hget] at hf
    split at hf
    · next heq =>
      rw [heq, hplain] at hside
      cases hside
    · split at hf
      · cases hf
      · exact ⟨⟨f, FileTree.read_eq_some.2 hf, rfl⟩, hside⟩

/-- Taking a sidecar away makes no record. -/
theorem records_erase {disk : FileTree File} {e p : Path} {b : List UInt8} {h : String}
    (hrec : Records host (disk.erase (meta_path e)) p b h) : Records host disk p b h := by
  obtain ⟨⟨f, hf, rfl⟩, hside⟩ := hrec
  obtain ⟨g, hg, hjson⟩ := Option.bind_eq_some_iff.1 hside
  rw [FileTree.read_erase] at hf hg
  split at hf
  · cases hf
  · split at hg
    · cases hg
    · exact ⟨⟨f, hf, rfl⟩, Option.bind_eq_some_iff.2 ⟨g, hg, hjson⟩⟩

theorem recorded_erase {disk : FileTree File} {e p : Path} (h : recorded host disk p = none) :
    recorded host (disk.erase (meta_path e)) p = none := by
  refine Option.eq_none_iff_forall_ne_some.2 fun sha hrec => ?_
  obtain ⟨g, hg, hjson⟩ := Option.bind_eq_some_iff.1 hrec
  rw [FileTree.read_erase] at hg
  split at hg
  · cases hg
  · rw [recorded, hg, Option.bind_some, hjson] at h
    cases h

variable {c : Call}

/-- A call that gets past the local engine and its sidecar asks HuggingFace. -/
theorem resolve_eq (host : HostSignature) (sha256 : List UInt8 → String) (dumps : Meta → List UInt8)
    (c : Call) (s : State) :
    (∃ disk ok, c.spec.resolve_local sha256 dumps host c.force_rebuild s.disk = some (disk, ok) ∧
      c.resolve sha256 dumps host s = ({ s with disk := disk }, ok)) ∨
    (c.spec.resolve_local sha256 dumps host c.force_rebuild s.disk = none ∧
      s.disk.is_dir (meta_path c.spec.engine_path) = true ∧
      c.resolve sha256 dumps host s = (s, false)) ∨
    (c.spec.resolve_local sha256 dumps host c.force_rebuild s.disk = none ∧
      s.disk.is_dir (meta_path c.spec.engine_path) = false ∧
      c.resolve sha256 dumps host s =
        c.spec.try_hf_resolve sha256 dumps host c.hub (c.unlinked s)) := by
  unfold Call.resolve RequiredEngine.resolve_one
  cases hlocal : c.spec.resolve_local sha256 dumps host c.force_rebuild s.disk with
  | some r => exact Or.inl ⟨r.1, r.2, rfl, rfl⟩
  | none =>
    simp only [RequiredEngine.from_hf]
    cases hdir : s.disk.is_dir (meta_path c.spec.engine_path) with
    | true => exact Or.inr (Or.inl ⟨trivial, rfl, rfl⟩)
    | false => exact Or.inr (Or.inr ⟨trivial, rfl, rfl⟩)

theorem downloads_grow (c : Call) (s : State) :
    ∀ d ∈ s.downloads, d ∈ (c.resolve sha256 dumps host s).1.downloads := by
  intro d hd
  rcases resolve_eq host sha256 dumps c s with
    ⟨disk, ok, -, heq⟩ | ⟨-, -, heq⟩ | ⟨-, -, heq⟩
  · rwa [heq]
  · rwa [heq]
  · rw [heq]
    rcases try_hf_resolve_cases host sha256 dumps c.spec c.hub
      (c.unlinked s) with hnone | ⟨info, sha, members, -, hdownloads, -⟩
    · rwa [hnone]
    · rw [hdownloads]
      split
      · exact List.mem_cons_of_mem _ hd
      · exact hd

/-- A sidecar after a traceable call was there beside the same bytes, or is true. -/
theorem resolve_records (hc : Traceable host sha256 dumps s c) {p : Path} {b : List UInt8}
    {h : String}
    (hrec : Records host (c.resolve sha256 dumps host s).1.disk p b h) :
    Records host s.disk p b h ∨
      Downloaded host (c.resolve sha256 dumps host s).1.downloads b h := by
  rcases resolve_eq host sha256 dumps c s with
    ⟨disk, ok, hlocal, heq⟩ | ⟨-, -, heq⟩ | ⟨hlocal, hdir, heq⟩
  · rw [heq] at hrec
    rcases resolve_local_disk hlocal with rfl | ⟨m, hput, hsource⟩
    · exact Or.inl hrec
    · refine Or.inl (records_put_sidecar hput ?_ (hc.plain _) hrec)
      rw [hsource]
      decide
  · rw [heq] at hrec
    exact Or.inl hrec
  · rw [heq] at hrec ⊢
    rcases try_hf_resolve_records (fun p => recorded_erase (hc.plain p))
      (fun info sha members hfetch => hc.bundle info sha members ⟨hlocal, hdir, hfetch⟩) hrec with
      hold | hdown
    · exact Or.inl (records_erase hold)
    · exact Or.inr hdown

/-! ### Locked specs -/

/-- A cache hit of a locked spec has a sidecar that records the bundle of the lock. -/
theorem verified_records {disk : FileTree File} (hspec : spec.require_published_integrity = true)
    (hmatch : meta_matches sha256 host (view disk spec.engine_path) = some true)
    (hver : spec.verified (view disk spec.engine_path) = true) :
    ∃ sha size b, spec.release_lock = some (.str sha, size) ∧
      Records host disk spec.engine_path b sha := by
  obtain ⟨f, hf⟩ : ∃ f, disk.read spec.engine_path = some f := by
    cases hget : disk.get? spec.engine_path with
    | none => simp [meta_matches, view, hget] at hmatch
    | some n =>
      cases n with
      | file f => exact ⟨f, FileTree.read_eq_some.2 hget⟩
      | directory =>
        simp only [meta_matches, view, hget] at hmatch
        split at hmatch
        all_goals first
          | cases hmatch
          | (split at hmatch <;> simp [EngineFile.sha] at hmatch)
  simp only [EngineSpec.verified, hspec, Bool.not_true, Bool.false_or] at hver
  split at hver
  · next sha size m hlock hobject =>
    obtain ⟨g, hg, hjson⟩ : ∃ g, disk.read (meta_path spec.engine_path) = some g ∧
        g.json = .object m := by
      simp only [view] at hobject
      split at hobject
      · cases hobject
      · cases hobject
      · next g hg =>
        refine ⟨g, FileTree.read_eq_some.2 hg, ?_⟩
        cases hj : g.json <;> simp_all [Parsed.sidecar]
    have hhost : m.host = some host.to_dict := by
      by_contra hne
      simp only [meta_matches, hobject] at hmatch
      cases hengine : (view disk spec.engine_path).engine <;> simp_all
    obtain ⟨hash, rfl⟩ : ∃ hash, sha = .str hash := by
      have hcheck := (spec.lock_checked _ hlock).1
      cases sha <;> simp_all [is_sha256]
    simp only [Bool.and_eq_true, decide_eq_true_eq] at hver
    refine ⟨hash, size, f.bytes, hlock, ⟨f, hf, rfl⟩, ?_⟩
    rw [recorded, hg, Option.bind_some, hjson]
    simp [Parsed.bundle_recorded, hhost, hver.1.1, hver.1.2]
  · cases hver

/-- A locked spec is resolved by bytes of the bundle of its lock, if a call is traceable and the
    sidecar it finds is true. -/
theorem resolve_locked (hc : Traceable host sha256 dumps s c)
    (hspec : c.spec.require_published_integrity = true)
    (hok : (c.resolve sha256 dumps host s).2 = true)
    (htrue : ∀ b h, Records host s.disk c.spec.engine_path b h → Downloaded host s.downloads b h) :
    ∃ sha size f, c.spec.release_lock = some (.str sha, size) ∧
      (c.resolve sha256 dumps host s).1.disk.read c.spec.engine_path = some f ∧
        Downloaded host (c.resolve sha256 dumps host s).1.downloads f.bytes sha := by
  rcases resolve_eq host sha256 dumps c s with
    ⟨disk, ok, hlocal, heq⟩ | ⟨-, -, heq⟩ | ⟨hlocal, hdir, heq⟩
  · rw [heq] at hok ⊢
    obtain rfl : ok = true := hok
    simp only [RequiredEngine.resolve_local, hspec] at hlocal
    split at hlocal
    · simp at hlocal
    · next valid hvalid =>
      simp only [Bool.not_true, Bool.and_false, Bool.false_and, Bool.false_eq_true, if_false] at hlocal
      split at hlocal
      · next hhit =>
        simp only [Bool.and_eq_true] at hhit
        obtain rfl : disk = s.disk := (congrArg Prod.fst (Option.some.inj hlocal)).symm
        obtain ⟨sha, size, b, hlock, hrec⟩ :=
          verified_records hspec (by rw [hvalid, hhit.1.2.1]) hhit.1.2.2
        have hdown := htrue _ _ hrec
        obtain ⟨⟨f, hf, rfl⟩, -⟩ := hrec
        exact ⟨sha, size, f, hlock, hf, hdown⟩
      · cases hlocal
  · rw [heq] at hok
    cases hok
  · rw [heq] at hok ⊢
    rcases try_hf_resolve_cases host sha256 dumps c.spec c.hub (c.unlinked s) with
      hnone | ⟨info, sha, members, hfetch, hdownloads, ⟨hfalse, -⟩ | ⟨onnx_sha, hcomplete, hdisk⟩⟩
    · rw [hnone] at hok
      cases hok
    · rw [hfalse] at hok
      cases hok
    · have hm := hc.bundle _ _ _ ⟨hlocal, hdir, hfetch⟩
      obtain ⟨hpub, hsha⟩ := fetch_checked hfetch
      simp only [RequiredEngine.published, hspec, Bool.not_true, Bool.false_or, Bool.and_eq_true,
        decide_eq_true_eq] at hpub
      obtain ⟨⟨hhash, -⟩, hlock⟩ := hpub
      obtain ⟨hash, hinfo⟩ : ∃ hash, info.sha256 = .str hash := by
        cases hj : info.sha256 <;> simp_all [is_sha256]
      rw [hinfo] at hlock
      rw [hdownloads]
      have hread : ∀ f, FileTree.read (FileTree.unpack (c.unlinked s).disk c.spec.dir members)
          c.spec.engine_path = some f →
          (c.spec.try_hf_resolve sha256 dumps host c.hub (c.unlinked s)).1.disk.read
            c.spec.engine_path = some f := by
        intro f hf
        rw [hdisk, FileTree.read_eq_some, write_bundle_metas_get host sha256 dumps info onnx_sha _ _
          fun e _ => hm.named hspec e]
        exact FileTree.read_eq_some.1 hf
      rcases hm.own hcomplete c.spec.engine_path (Or.inr ⟨rfl, hspec⟩) with
        ⟨q, f, hq, hf⟩ | ⟨f, hf, hdown⟩
      · refine ⟨hash, info.size, f, hlock, hread f ?_,
          downloaded_member hinfo hm.declared hsha hf _⟩
        rw [hq]
        exact unpack_read hf
      · refine ⟨hash, info.size, f, hlock, hread f hf, (hdown hash hinfo).mono fun d hd => ?_⟩
        split
        · exact List.mem_cons_of_mem _ hd
        · exact hd

end

/-! ### Runs -/

/-- One engine of a run. -/
def Resolves (s : State) (c : Call) (t : State) : Prop := (c.resolve sha256 dumps host s).1 = t

variable {host sha256 dumps} {s t : State} {calls : List Call}

theorem run_build_report (h : Run (Resolves host sha256 dumps) s calls t) :
    build_report sha256 dumps host calls s = t := by
  induction h with
  | nil => rfl
  | snoc _ hst ih =>
    rw [build_report, List.foldl_append, List.foldl_cons, List.foldl_nil]
    rw [build_report] at ih
    rw [ih]
    exact hst

/-- What the sidecars record at the end of a run of traceable calls is true, or was recorded of the
    same bytes before it; and the downloads only grow. -/
theorem run_records (h : Run (restrict (Traceable host sha256 dumps) (Resolves host sha256 dumps))
    s calls t) :
    (∀ d ∈ s.downloads, d ∈ t.downloads) ∧ ∀ p b h, Records host t.disk p b h →
      Records host s.disk p b h ∨ Downloaded host t.downloads b h := by
  induction h with
  | nil => exact ⟨fun _ hd => hd, fun _ _ _ hrec => Or.inl hrec⟩
  | snoc _ hst ih =>
    obtain ⟨hc, rfl⟩ := hst
    obtain ⟨hgrow, hrecords⟩ := ih
    refine ⟨fun d hd => downloads_grow _ _ d (hgrow d hd), fun p b h hrec => ?_⟩
    rcases resolve_records hc hrec with hold | hdown
    · exact (hrecords p b h hold).imp_right fun hdown => hdown.mono (downloads_grow _ _)
    · exact Or.inr hdown

end

/-! ### A bundle without the engine -/

def lock_hash : String := String.ofList (List.replicate 64 'a')

def every_hash : List UInt8 → String := fun _ => lock_hash

def empty_dump : Meta → List UInt8 := fun _ => []

def engine_at (name : String) : Path := ⟨["models", "m", "engines"], name⟩

/-- A release-locked spec of the engine with this name. -/
def locked (name : String) : RequiredEngine where
  require_published_integrity := true
  release_lock := some (.str lock_hash, .int 1)
  engine_path := engine_at name
  extra_file_paths := []
  onnx_path_candidates := []
  lock_checked := by
    rintro lock h
    obtain rfl := Option.some.inj h
    exact ⟨by decide, by decide⟩

/-- The bundle of the lock, with one engine. -/
def bundle_of (name : String) : FileTree File := Dict.empty.set ⟨[], name⟩ (.file ⟨[2], .invalid⟩)

def hub_with (name : String) : Hub where
  files := some fun _ => some ⟨.str lock_hash, .int 1⟩
  tarball := some ⟨[7], some (bundle_of name)⟩

theorem bundle_of_read {name : String} {q : Path} {f : File} (h : (bundle_of name).read q = some f) :
    q = ⟨[], name⟩ ∧ f = ⟨[2], .invalid⟩ := by
  rw [FileTree.read_eq_some, bundle_of, Dict.get?_set] at h
  split at h
  · next hq => exact ⟨hq, by simpa using h.symm⟩
  · cases h

/-- The engine that the profile wants, and an engine left by an earlier installation. -/
def wanted : Call := ⟨locked "a.engine", false, hub_with "a.engine"⟩

def without_it : Call := ⟨locked "a.engine", false, hub_with "b.engine"⟩

def fresh : State := ⟨Dict.empty, []⟩

def left_over : State := ⟨Dict.empty.set (engine_at "a.engine") (.file ⟨[1], .invalid⟩), []⟩

theorem wanted_traceable : Traceable this_host every_hash empty_dump fresh wanted := by
  refine ⟨fun p => rfl, fun info sha members hunpacks => ?_⟩
  obtain ⟨-, -, hfetch⟩ := hunpacks
  have hfetch' : wanted.spec.fetch every_hash this_host wanted.hub =
      some (⟨.str lock_hash, .int 1⟩, lock_hash, bundle_of "a.engine") := by rfl
  rw [hfetch'] at hfetch
  obtain ⟨rfl, rfl, rfl⟩ : _ = info ∧ _ = sha ∧ _ = members := by simpa using hfetch
  have hempty : ∀ p, recorded this_host (wanted.unlinked fresh).disk p = none := fun p => rfl
  refine ⟨by decide, fun _ p hp => ?_, fun q f hq => ?_, fun q f h _ hrec => ?_, fun _ q => ?_⟩
  · have hp' : p = engine_at "a.engine" := by
      have hmem : iter_extracted_engine_files (FileTree.unpack (wanted.unlinked fresh).disk
          wanted.spec.dir (bundle_of "a.engine")) wanted.spec.dir = [engine_at "a.engine"] := by decide
      rw [hmem] at hp
      rcases hp with hp | ⟨hp, -⟩
      · simpa using hp
      · exact hp
    exact Or.inl ⟨⟨[], "a.engine"⟩, ⟨[2], .invalid⟩, hp', rfl⟩
  · have hname := (bundle_of_read hq).1
    exact absurd (show EngineName (meta_path q) by rw [hname]; decide) (not_engine_meta q)
  · rw [hempty] at hrec
    cases hrec
  · have hname : EngineName wanted.spec.engine_path := by decide
    refine ⟨fun h => ?_, fun h => ?_⟩
    · exact not_engine_meta q (h ▸ hname)
    · exact not_engine_tmp q (h ▸ hname)

end LocalVoice.EngineResolver
