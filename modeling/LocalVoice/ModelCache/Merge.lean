import Mathlib.Data.List.Induction
import LocalVoice.Lib.Each
import LocalVoice.ModelCache.Ensure

/-! `ensure_model_requests` of `server/core/qwen3_artifact_downloader.py`: the requests are merged by
    model, and there is one call of `ensure_model_artifacts` for each model. What is asked of a model
    does not depend on the order of the requests (`requests_permute`), but for the manifest: the first
    one that is named is taken. -/

namespace LocalVoice.ModelCache
open LocalVoice.Lib

/-! ### The requests -/

structure ModelArtifactRequest where
  model_id : String
  repo : String
  required_files : List String
  revision : String
  root : String
  manifest : String
  cache_root : String
  canonical_model_id : String
  deriving DecidableEq

/-- The fields of a request that is a mapping; a missing one is null, or a missing list. -/
structure RawRequest where
  model_id : Json
  model : Json
  repo : Json
  hf_repo : Json
  required_files : List Json
  files : List Json
  revision : Json
  root : Json
  manifest : Json
  cache_root : Json
  canonical_model_id : Json
  canonical_id : Json

inductive Raw where
  | request (r : ModelArtifactRequest)
  | mapping (m : RawRequest)
  | other

inductive RequestError where
  | unsupported
  | no_model_id
  | multiple (model_id : String)
  deriving DecidableEq

/-- `a or b`, of texts. -/
def or_text (a b : String) : String := if a = "" then b else a

/-- `str(value or default)`. -/
def text_or (value : Json) (default : String) : String := if value.truthy then value.toStr else default

def RawRequest.request (m : RawRequest) : ModelArtifactRequest where
  model_id := text_or (Json.or m.model_id m.model) ""
  repo := text_or (Json.or m.repo m.hf_repo) ""
  required_files := (if m.required_files = [] then m.files else m.required_files).map Json.toStr
  revision := text_or m.revision "main"
  root := text_or m.root ""
  manifest := text_or m.manifest ""
  cache_root := text_or m.cache_root ""
  canonical_model_id := text_or (Json.or m.canonical_model_id m.canonical_id) ""

def Raw.read : Raw → Except RequestError ModelArtifactRequest
  | .request r => .ok r
  | .mapping m => .ok m.request
  | .other => .error .unsupported

/-! ### Merging -/

namespace ModelArtifactRequest

/-- The model a request is for. -/
def key (r : ModelArtifactRequest) : String := PyText.strip r.model_id

/-- What the requests for a model have to agree in. -/
def source (r : ModelArtifactRequest) : String × String × String × String × String :=
  (strip_of "/" r.repo, or_text r.revision "main", r.canonical_model_id, r.root, r.cache_root)

/-- A request with another one for the same model. -/
def merge (old req : ModelArtifactRequest) : ModelArtifactRequest where
  model_id := req.key
  repo := old.repo
  required_files := (old.required_files ++ req.required_files).eraseDups
  revision := old.revision
  root := or_text old.root req.root
  manifest := or_text old.manifest req.manifest
  cache_root := or_text old.cache_root req.cache_root
  canonical_model_id := or_text old.canonical_model_id req.canonical_model_id

end ModelArtifactRequest

/-- A round of the loop over the requests. -/
def add_request (merged : Dict String ModelArtifactRequest) (req : ModelArtifactRequest) :
    Except RequestError (Dict String ModelArtifactRequest) :=
  if req.key = "" then .error .no_model_id
  else match merged.get? req.key with
    | none => .ok (merged.set req.key req)
    | some old =>
      if old.source = req.source then .ok (merged.set req.key (old.merge req))
      else .error (.multiple req.key)

/-- The arguments of a call of `ensure_model_artifacts`. -/
structure Call where
  model_id : String
  repo : String
  required_files : List String
  revision : String
  canonical_model_id : Option String
  root : Option String
  manifest : Option String
  cache_root : Option String
  deriving DecidableEq

/-- `value or None`. -/
def or_none (s : String) : Option String := if s = "" then none else some s

def ModelArtifactRequest.call (r : ModelArtifactRequest) : Call :=
  ⟨r.model_id, r.repo, r.required_files, r.revision, or_none r.canonical_model_id, or_none r.root,
    or_none r.manifest, or_none r.cache_root⟩

/-- The loop over the requests. -/
def merge_requests (requests : List Raw) : Except RequestError (Dict String ModelArtifactRequest) :=
  requests.foldlM (fun merged (raw : Raw) => raw.read.bind (add_request merged)) Dict.empty

/-- The calls of `ensure_model_artifacts`, in their order. -/
def calls (requests : List Raw) : Except RequestError (List Call) :=
  (merge_requests requests).map fun merged => merged.items.map fun e => e.2.call

/-- The calls are made one after the other, until one of them raises. -/
def issue {σ : Type} (ensure : σ → Call → Option σ) : σ → List Call → List Call × Bool
  | _, [] => ([], true)
  | s, c :: cs => match ensure s c with
    | none => ([c], false)
    | some t => (c :: (issue ensure t cs).1, (issue ensure t cs).2)

/-- `ensure_model_requests`: the calls that were made, and what is returned, unless one raised. -/
def ensure_model_requests {σ : Type} (ensure : σ → Call → Option σ) (s : σ) (requests : List Raw) :
    Except RequestError (List Call × Option Bool) :=
  (calls requests).map fun cs =>
    ((issue ensure s cs).1, if (issue ensure s cs).2 then some (!cs.isEmpty) else none)

/-- What `ensure_model_artifacts` makes of its arguments, but for the files and the manifest. -/
def Call.read (c : Call) : String × String × String × Option String × Option String × Option String :=
  (PyText.strip c.model_id, strip_of "/" c.repo, or_text c.revision "main", c.canonical_model_id, c.root,
    c.cache_root)

/-! ### What is merged -/

section
variable {seen reqs reqs' : List ModelArtifactRequest} {merged merged' : Dict String ModelArtifactRequest}
  {r r' m : ModelArtifactRequest} {k : String} {e : RequestError}

theorem or_text_self (a : String) : or_text a a = a := by
  rw [or_text]
  split <;> rfl

theorem key_merge (old req : ModelArtifactRequest) : (old.merge req).key = req.key :=
  PyText.strip_strip _

theorem source_merge {old req : ModelArtifactRequest} (h : old.source = req.source) :
    (old.merge req).source = req.source := by
  rw [← h]
  simp only [ModelArtifactRequest.source, Prod.mk.injEq] at h
  obtain ⟨-, -, hcanonical, hroot, hcache⟩ := h
  rw [ModelArtifactRequest.source, ModelArtifactRequest.source, ModelArtifactRequest.merge,
    ← hcanonical, ← hroot, ← hcache, or_text_self, or_text_self, or_text_self]

theorem mem_merge {old req : ModelArtifactRequest} {f : String} :
    f ∈ (old.merge req).required_files ↔ f ∈ old.required_files ∨ f ∈ req.required_files := by
  rw [ModelArtifactRequest.merge, List.mem_eraseDups, List.mem_append]

/-- A model stands under its name for the requests for it: their source, all their files, and a
    manifest that one of them names, if one does. -/
structure Stands (seen : List ModelArtifactRequest) (k : String) (m : ModelArtifactRequest) : Prop where
  key : m.key = k
  asked : ∃ r ∈ seen, r.key = k
  source : ∀ r ∈ seen, r.key = k → m.source = r.source
  files : ∀ f, f ∈ m.required_files ↔ ∃ r ∈ seen, r.key = k ∧ f ∈ r.required_files
  named : m.manifest ≠ "" → ∃ r ∈ seen, r.key = k ∧ r.manifest = m.manifest
  unnamed : m.manifest = "" → ∀ r ∈ seen, r.key = k → r.manifest = ""

/-- The requests seen so far, merged. -/
structure Merged (seen : List ModelArtifactRequest) (merged : Dict String ModelArtifactRequest) :
    Prop where
  ids : ∀ r ∈ seen, r.key ≠ ""
  there : ∀ r ∈ seen, (merged.get? r.key).isSome = true
  stands : ∀ k m, merged.get? k = some m → Stands seen k m

theorem Stands.first (h : ∀ q ∈ seen, q.key ≠ r.key) : Stands (seen ++ [r]) r.key r := by
  have hone : ∀ q ∈ seen ++ [r], q.key = r.key → q = r := fun q hq hkey => by
    rcases List.mem_append.1 hq with hq | hq
    · exact absurd hkey (h q hq)
    · exact List.mem_singleton.1 hq
  have hself : r ∈ seen ++ [r] := List.mem_append_right _ (List.mem_singleton_self r)
  refine ⟨rfl, ⟨r, hself, rfl⟩, fun q hq hkey => ?_, fun f => ⟨fun hf => ⟨r, hself, rfl, hf⟩, ?_⟩,
    fun _ => ⟨r, hself, rfl, rfl⟩, fun hnone q hq hkey => ?_⟩
  · rw [hone q hq hkey]
  · rintro ⟨q, hq, hkey, hf⟩
    rwa [hone q hq hkey] at hf
  · rw [hone q hq hkey, hnone]

theorem Stands.other (h : Stands seen k m) (hkey : r.key ≠ k) : Stands (seen ++ [r]) k m := by
  have hold : ∀ q ∈ seen ++ [r], q.key = k → q ∈ seen := fun q hq hq' => by
    rcases List.mem_append.1 hq with hq | hq
    · exact hq
    · obtain rfl := List.mem_singleton.1 hq
      exact absurd hq' hkey
  have hnew : ∀ q ∈ seen, q ∈ seen ++ [r] := fun q hq => List.mem_append_left _ hq
  refine ⟨h.key, ?_, fun q hq hq' => h.source q (hold q hq hq') hq', fun f => ?_, fun hname => ?_,
    fun hnone q hq hq' => h.unnamed hnone q (hold q hq hq') hq'⟩
  · obtain ⟨q, hq, hq'⟩ := h.asked
    exact ⟨q, hnew q hq, hq'⟩
  · rw [h.files f]
    constructor
    · rintro ⟨q, hq, hq', hf⟩
      exact ⟨q, hnew q hq, hq', hf⟩
    · rintro ⟨q, hq, hq', hf⟩
      exact ⟨q, hold q hq hq', hq', hf⟩
  · obtain ⟨q, hq, hq', hf⟩ := h.named hname
    exact ⟨q, hnew q hq, hq', hf⟩

theorem Stands.more (h : Stands seen r.key m) (hsource : m.source = r.source) :
    Stands (seen ++ [r]) r.key (m.merge r) := by
  have hnew : ∀ q ∈ seen, q ∈ seen ++ [r] := fun q hq => List.mem_append_left _ hq
  have hself : r ∈ seen ++ [r] := List.mem_append_right _ (List.mem_singleton_self r)
  refine ⟨key_merge m r, ⟨r, hself, rfl⟩, fun q hq hkey => ?_, fun f => ?_, fun hname => ?_,
    fun hnone q hq hkey => ?_⟩
  · rw [source_merge hsource]
    rcases List.mem_append.1 hq with hq | hq
    · rw [← hsource, h.source q hq hkey]
    · rw [List.mem_singleton.1 hq]
  · rw [mem_merge, h.files f]
    constructor
    · rintro (⟨q, hq, hkey, hf⟩ | hf)
      · exact ⟨q, hnew q hq, hkey, hf⟩
      · exact ⟨r, hself, rfl, hf⟩
    · rintro ⟨q, hq, hkey, hf⟩
      rcases List.mem_append.1 hq with hq | hq
      · exact .inl ⟨q, hq, hkey, hf⟩
      · obtain rfl := List.mem_singleton.1 hq
        exact .inr hf
  · rw [ModelArtifactRequest.merge] at hname ⊢
    dsimp only at hname ⊢
    rw [or_text] at hname ⊢
    split at hname
    · next hold =>
      rw [if_pos hold]
      exact ⟨r, hself, rfl, rfl⟩
    · next hold =>
      rw [if_neg hold]
      obtain ⟨q, hq, hkey, hq'⟩ := h.named hold
      exact ⟨q, hnew q hq, hkey, hq'⟩
  · rw [ModelArtifactRequest.merge] at hnone
    dsimp only at hnone
    rw [or_text] at hnone
    split at hnone
    · next hold =>
      rcases List.mem_append.1 hq with hq | hq
      · exact h.unnamed hold q hq hkey
      · rwa [List.mem_singleton.1 hq]
    · next hold => exact absurd hnone hold

theorem add_request_merged (h : Merged seen merged) (hadd : add_request merged r = .ok merged') :
    Merged (seen ++ [r]) merged' := by
  rw [add_request] at hadd
  split at hadd
  · cases hadd
  next hid =>
  have hids : ∀ q ∈ seen ++ [r], q.key ≠ "" := fun q hq => by
    rcases List.mem_append.1 hq with hq | hq
    · exact h.ids q hq
    · rwa [List.mem_singleton.1 hq]
  have hset : ∀ v : ModelArtifactRequest, Stands (seen ++ [r]) r.key v →
      Merged (seen ++ [r]) (merged.set r.key v) := by
    refine fun v hv => ⟨hids, fun q hq => ?_, fun k m hget => ?_⟩
    · rw [Dict.get?_set]
      split
      · rfl
      · next hne =>
        rcases List.mem_append.1 hq with hq | hq
        · exact h.there q hq
        · rw [List.mem_singleton.1 hq] at hne
          exact absurd rfl hne
    · rw [Dict.get?_set] at hget
      split at hget
      · next heq =>
        cases hget
        rwa [heq]
      · next hne => exact (h.stands k m hget).other fun heq => hne heq.symm
  split at hadd
  · next hnone =>
    cases hadd
    refine hset r (.first fun q hq hkey => ?_)
    have hthere := h.there q hq
    rw [hkey, hnone] at hthere
    cases hthere
  · next old hold =>
    split at hadd
    · next hsource =>
      cases hadd
      exact hset _ ((h.stands r.key old hold).more hsource)
    · cases hadd

/-- Why requests are not merged: one names no model, or two for a model differ in their source. -/
def Refused (reqs : List ModelArtifactRequest) (e : RequestError) : Prop :=
  (e = .no_model_id ∧ ∃ r ∈ reqs, r.key = "") ∨
    ∃ r ∈ reqs, e = .multiple r.key ∧ ∃ q ∈ reqs, q.key = r.key ∧ q.source ≠ r.source

theorem add_request_refused (h : Merged seen merged) (hadd : add_request merged r = .error e) :
    Refused (seen ++ [r]) e := by
  have hself : r ∈ seen ++ [r] := List.mem_append_right _ (List.mem_singleton_self r)
  rw [add_request] at hadd
  split at hadd
  · next hid =>
    cases hadd
    exact .inl ⟨rfl, r, hself, hid⟩
  · split at hadd
    · cases hadd
    · next old hold =>
      split at hadd
      · cases hadd
      · next hsource =>
        cases hadd
        have hstands := h.stands r.key old hold
        obtain ⟨q, hq, hkey⟩ := hstands.asked
        refine .inr ⟨r, hself, rfl, q, List.mem_append_left _ hq, hkey, fun heq => hsource ?_⟩
        rw [hstands.source q hq hkey, heq]

theorem Refused.mono (h : Refused reqs e) (hsub : ∀ r ∈ reqs, r ∈ reqs') : Refused reqs' e := by
  rcases h with ⟨he, r, hr, hid⟩ | ⟨r, hr, he, q, hq, hkey, hne⟩
  · exact .inl ⟨he, r, hsub r hr, hid⟩
  · exact .inr ⟨r, hsub r hr, he, q, hsub q hq, hkey, hne⟩

/-- A list of requests is merged, or refused. -/
theorem merge_requests_spec (reqs : List ModelArtifactRequest) :
    (∃ merged, merge_requests (reqs.map Raw.request) = .ok merged ∧ Merged reqs merged) ∨
      ∃ e, merge_requests (reqs.map Raw.request) = .error e ∧ Refused reqs e := by
  induction reqs using List.reverseRecOn with
  | nil => exact .inl ⟨Dict.empty, rfl, nofun, nofun, nofun⟩
  | append_singleton reqs r ih =>
    have hstep : merge_requests ((reqs ++ [r]).map Raw.request) =
        (merge_requests (reqs.map Raw.request)).bind fun merged => add_request merged r := by
      rw [merge_requests, merge_requests, List.map_append, List.foldlM_append, List.map_singleton]
      refine bind_congr fun merged => ?_
      rw [List.foldlM_cons, Raw.read]
      cases h : add_request merged r <;> simp [Except.bind, h, bind, pure, Except.pure]
    rcases ih with ⟨merged, hmerged, h⟩ | ⟨e, he, h⟩
    · rw [hstep, hmerged, Except.bind]
      cases hadd : add_request merged r with
      | ok merged' => exact .inl ⟨merged', rfl, add_request_merged h hadd⟩
      | error e => exact .inr ⟨e, rfl, add_request_refused h hadd⟩
    · rw [hstep, he]
      exact .inr ⟨e, rfl, h.mono fun q hq => List.mem_append_left _ hq⟩

/-- Requests that were merged are not refused. -/
theorem Merged.not_refused (h : Merged reqs merged) : ¬Refused reqs e := by
  rintro (⟨-, r, hr, hid⟩ | ⟨r, hr, -, q, hq, hkey, hne⟩)
  · exact h.ids r hr hid
  · obtain ⟨m, hm⟩ := Option.isSome_iff_exists.1 (h.there r hr)
    have hstands := h.stands r.key m hm
    exact hne ((hstands.source q hq hkey).symm.trans (hstands.source r hr rfl))

/-! ### The calls -/

/-- No two manifests are named for a model. -/
def OneManifest (reqs : List ModelArtifactRequest) (k : String) : Prop :=
  ∀ q ∈ reqs, ∀ r ∈ reqs, q.key = k → r.key = k → q.manifest ≠ "" → r.manifest ≠ "" →
    q.manifest = r.manifest

/-- Each call of `cs` is made in `cs'` too, with the same files, in some order; and with the same
    manifest, unless the requests name two. -/
def Within (reqs : List ModelArtifactRequest) (cs cs' : List Call) : Prop :=
  ∀ c ∈ cs, ∃ c' ∈ cs', c.read = c'.read ∧ (∀ f, f ∈ c.required_files ↔ f ∈ c'.required_files) ∧
    (OneManifest reqs c.read.1 → c.manifest = c'.manifest)

/-- The calls for some requests: one for each model, with all the files that are required. -/
structure Asked (reqs : List ModelArtifactRequest) (cs : List Call) : Prop where
  once : (cs.map fun c => c.read.1).Nodup
  files : ∀ r ∈ reqs, ∃ c ∈ cs, c.read.1 = r.key ∧ ∀ f ∈ r.required_files, f ∈ c.required_files

/-- The calls are gone through, up to the first that raises. -/
def Issued {σ : Type} (ensure : σ → Call → Option σ) (s : σ) (reqs : List ModelArtifactRequest)
    (cs : List Call) : Prop :=
  ∃ issued returned, ensure_model_requests ensure s (reqs.map Raw.request) = .ok (issued, returned) ∧
    issued <+: cs ∧ (returned ≠ none → issued = cs)

theorem issue_prefix {σ : Type} (ensure : σ → Call → Option σ) (s : σ) (cs : List Call) :
    (issue ensure s cs).1 <+: cs ∧ ((issue ensure s cs).2 = true → (issue ensure s cs).1 = cs) := by
  induction cs generalizing s with
  | nil => exact ⟨List.prefix_refl [], fun _ => rfl⟩
  | cons c cs ih =>
    rw [issue]
    split
    · exact ⟨List.cons_prefix_cons.2 ⟨rfl, List.nil_prefix⟩, nofun⟩
    · next t _ =>
      obtain ⟨hpre, hall⟩ := ih t
      exact ⟨List.cons_prefix_cons.2 ⟨rfl, hpre⟩, fun h => congrArg (c :: ·) (hall h)⟩

theorem issued_calls {σ : Type} (ensure : σ → Call → Option σ) (s : σ) {cs : List Call}
    (h : calls (reqs.map Raw.request) = .ok cs) : Issued ensure s reqs cs := by
  obtain ⟨hpre, hall⟩ := issue_prefix ensure s cs
  refine ⟨(issue ensure s cs).1, if (issue ensure s cs).2 then some (!cs.isEmpty) else none, ?_, hpre,
    fun hret => ?_⟩
  · rw [ensure_model_requests, h]
    rfl
  · split at hret
    · next hok => exact hall hok
    · exact absurd rfl hret

theorem calls_merged (h : merge_requests (reqs.map Raw.request) = .ok merged) :
    calls (reqs.map Raw.request) = .ok (merged.items.map fun e => e.2.call) := by
  rw [calls, h]
  rfl

/-- What stands under a name for the same requests is called for in the same way. -/
theorem Stands.call_read {m' : ModelArtifactRequest} (h : Stands reqs k m) (h' : Stands reqs' k m')
    (hsame : ∀ r, r ∈ reqs ↔ r ∈ reqs') : m.call.read = m'.call.read := by
  obtain ⟨r, hr, hkey⟩ := h.asked
  have hsource := (h.source r hr hkey).trans (h'.source r ((hsame r).1 hr) hkey).symm
  have hid := h.key.trans h'.key.symm
  simp only [ModelArtifactRequest.source, Prod.mk.injEq] at hsource
  obtain ⟨hrepo, hrevision, hcanonical, hroot, hcache⟩ := hsource
  rw [ModelArtifactRequest.key, ModelArtifactRequest.key] at hid
  simp only [Call.read, ModelArtifactRequest.call, hid, hrepo, hrevision, hcanonical, hroot, hcache]

theorem Stands.manifest_eq {m' : ModelArtifactRequest} (h : Stands reqs k m) (h' : Stands reqs' k m')
    (hsame : ∀ r, r ∈ reqs ↔ r ∈ reqs') (hone : OneManifest reqs k) : m.manifest = m'.manifest := by
  by_cases hm : m.manifest = ""
  · by_cases hm' : m'.manifest = ""
    · rw [hm, hm']
    · obtain ⟨r, hr, hkey, hr'⟩ := h'.named hm'
      have hnone := h.unnamed hm r ((hsame r).2 hr) hkey
      exact absurd (hr'.symm.trans hnone) hm'
  · obtain ⟨q, hq, hqkey, hqm⟩ := h.named hm
    by_cases hm' : m'.manifest = ""
    · have hnone := h'.unnamed hm' q ((hsame q).1 hq) hqkey
      exact absurd (hqm.symm.trans hnone) hm
    · obtain ⟨r, hr, hrkey, hrm⟩ := h'.named hm'
      rw [← hqm, ← hrm]
      exact hone q hq r ((hsame r).2 hr) hqkey hrkey (by rwa [hqm]) (by rwa [hrm])

/-- The calls for the same requests are within each other. -/
theorem Merged.within (h : Merged reqs merged) (h' : Merged reqs' merged')
    (hsame : ∀ r, r ∈ reqs ↔ r ∈ reqs') (names : List ModelArtifactRequest)
    (hnames : ∀ k, OneManifest names k → OneManifest reqs k) :
    Within names (merged.items.map fun e => e.2.call) (merged'.items.map fun e => e.2.call) := by
  intro c hc
  obtain ⟨⟨k, m⟩, hmem, rfl⟩ := List.mem_map.1 hc
  have hm := h.stands k m (Dict.mem_items.1 hmem)
  obtain ⟨r, hr, hkey⟩ := hm.asked
  have hthere := h'.there r ((hsame r).1 hr)
  rw [hkey] at hthere
  obtain ⟨m', hget⟩ := Option.isSome_iff_exists.1 hthere
  have hm' := h'.stands k m' hget
  refine ⟨m'.call, List.mem_map.2 ⟨(k, m'), Dict.mem_items.2 hget, rfl⟩, hm.call_read hm' hsame,
    fun f => ?_, fun hone => ?_⟩
  · refine (hm.files f).trans (Iff.trans ?_ (hm'.files f).symm)
    simp only [hsame]
  · have hid : m.call.read.1 = k := hm.key
    rw [hid] at hone
    exact congrArg or_none (hm.manifest_eq hm' hsame (hnames k hone))

theorem Merged.asked (h : Merged reqs merged) : Asked reqs (merged.items.map fun e => e.2.call) := by
  refine ⟨?_, fun r hr => ?_⟩
  · have hkeys : (merged.items.map fun e => e.2.call).map (fun c => c.read.1) =
        merged.items.map Prod.fst := by
      rw [List.map_map]
      refine List.map_congr_left fun e he => ?_
      exact (h.stands e.1 e.2 (Dict.mem_items.1 he)).key
    rw [hkeys]
    exact merged.nodup
  · obtain ⟨m, hm⟩ := Option.isSome_iff_exists.1 (h.there r hr)
    have hstands := h.stands r.key m hm
    refine ⟨m.call, List.mem_map.2 ⟨(r.key, m), Dict.mem_items.2 hm, rfl⟩, hstands.key, fun f hf => ?_⟩
    exact (hstands.files f).2 ⟨r, hr, rfl, hf⟩

end

/-- In whatever order requests come, they are refused, over the sources of a model if all of them name
    one; or the same calls are made for them, one for each model and with all the files that are
    required of it, and with the same manifest where no two are named. -/
theorem requests_permute {σ : Type} (ensure : σ → Call → Option σ) (s : σ)
    {reqs reqs' : List ModelArtifactRequest} (hperm : reqs.Perm reqs') :
    (∃ e e', ensure_model_requests ensure s (reqs.map Raw.request) = .error e ∧
        ensure_model_requests ensure s (reqs'.map Raw.request) = .error e' ∧
        ((∀ r ∈ reqs, r.key ≠ "") → ∃ k k', e = .multiple k ∧ e' = .multiple k')) ∨
      ∃ cs cs', Issued ensure s reqs cs ∧ Issued ensure s reqs' cs' ∧ Asked reqs cs ∧ Asked reqs' cs' ∧
        Within reqs cs cs' ∧ Within reqs cs' cs := by
  have hsame : ∀ r, r ∈ reqs ↔ r ∈ reqs' := fun r => hperm.mem_iff
  have hfail : ∀ {l : List ModelArtifactRequest} {e},
      merge_requests (l.map Raw.request) = .error e →
        ensure_model_requests ensure s (l.map Raw.request) = .error e := fun h => by
    rw [ensure_model_requests, calls, h]
    rfl
  rcases merge_requests_spec reqs with ⟨merged, hmerged, h⟩ | ⟨e, he, h⟩
  · rcases merge_requests_spec reqs' with ⟨merged', hmerged', h'⟩ | ⟨e', -, h'⟩
    · refine .inr ⟨_, _, issued_calls ensure s (calls_merged hmerged),
        issued_calls ensure s (calls_merged hmerged'), h.asked, h'.asked,
        h.within h' hsame reqs fun _ => id, h'.within h (fun r => (hsame r).symm) reqs
          fun k hone q hq r hr => hone q ((hsame q).2 hq) r ((hsame r).2 hr)⟩
    · exact absurd (h'.mono fun r hr => (hsame r).2 hr) h.not_refused
  · rcases merge_requests_spec reqs' with ⟨merged', -, h'⟩ | ⟨e', he', h'⟩
    · exact absurd (h.mono fun r hr => (hsame r).1 hr) h'.not_refused
    · refine .inl ⟨e, e', hfail he, hfail he', fun hids => ?_⟩
      rcases h with ⟨-, r, hr, hid⟩ | ⟨r, -, rfl, -⟩
      · exact absurd hid (hids r hr)
      · rcases h' with ⟨-, q, hq, hid⟩ | ⟨q, -, rfl, -⟩
        · exact absurd hid (hids q ((hsame q).2 hq))
        · exact ⟨_, _, rfl, rfl⟩

/-- A request for the engines of a model, and one that names a manifest. -/
def asr_engines : ModelArtifactRequest :=
  ⟨"asr", "org/asr-artifacts", ["engines/asr"], "main", "", "", "", ""⟩

def asr_weights (manifest : String) : ModelArtifactRequest :=
  ⟨"asr", "org/asr-artifacts/", ["models/ref.bin"], "", "", manifest, "", ""⟩

theorem requests_permute_asr :
    (∃ e e', ensure_model_requests (fun s _ => some s) ()
          ([asr_engines, asr_weights "asr.json"].map Raw.request) = .error e ∧
        ensure_model_requests (fun s _ => some s) ()
          ([asr_weights "asr.json", asr_engines].map Raw.request) = .error e' ∧
        ((∀ r ∈ [asr_engines, asr_weights "asr.json"], r.key ≠ "") →
          ∃ k k', e = .multiple k ∧ e' = .multiple k')) ∨
      ∃ cs cs', Issued (fun s _ => some s) () [asr_engines, asr_weights "asr.json"] cs ∧
        Issued (fun s _ => some s) () [asr_weights "asr.json", asr_engines] cs' ∧
        Asked [asr_engines, asr_weights "asr.json"] cs ∧
        Asked [asr_weights "asr.json", asr_engines] cs' ∧
        Within [asr_engines, asr_weights "asr.json"] cs cs' ∧
        Within [asr_engines, asr_weights "asr.json"] cs' cs :=
  requests_permute (fun s _ => some s) () (List.Perm.swap _ _ [])

/-- Of two manifests that are named for a model, the first one is taken; and a request without a model
    is refused on its own. -/
theorem manifest_by_order :
    [asr_weights "a.json", asr_weights "b.json"].Perm [asr_weights "b.json", asr_weights "a.json"] ∧
      (∃ c c', calls ([asr_weights "a.json", asr_weights "b.json"].map Raw.request) = .ok [c] ∧
        calls ([asr_weights "b.json", asr_weights "a.json"].map Raw.request) = .ok [c'] ∧
        c.manifest ≠ c'.manifest) ∧
      calls [.request { asr_engines with model_id := " " }] = .error .no_model_id :=
  ⟨List.Perm.swap _ _ [], ⟨_, _, rfl, rfl, by decide⟩, rfl⟩

end LocalVoice.ModelCache
