import LocalVoice.BackendManager.Safety
import LocalVoice.ProfileLoader.Reapply

/-! The ASR and the TTS manager over the one profile loader of the process, and what a rolled-back
    hot swap leaves of the configuration. The rollback applies the old profile again, by the
    reference its manager remembers; `rollback_restores` says when that leads back to where the
    reload began. -/

namespace LocalVoice.BackendManager
open LocalVoice.Lib LocalVoice.ProfileLoader

section
variable {β : Type} {S : Env}

/-- What a manager of the kind `kd` reaches outside itself, on a given disk. -/
def loader_services (hot : β → Bool) (preview : Kind → String → LoaderState S → Option Refusal)
    (disk : Disk) (kd : Kind) : Services β (LoaderState S) where
  supports_hot_reload := hot
  current_name l := (l.current.name.filter (· ≠ .null)).map Json.toStr
  preview := preview kd
  apply_profile ref l :=
    ((apply_profile disk (scoped_call kd ref) l).1,
      (apply_profile disk (scoped_call kd ref) l).2.raises)

/-- The configuration of the kind is the same: its variables, the applied-key record and the current
    profile. -/
structure SameConfig (kd : Kind) (l₀ l : LoaderState S) : Prop where
  environ : ∀ k, key_kind k = some kd → l.environ k = l₀.environ k
  applied : l.applied = l₀.applied
  current : l.current = l₀.current

/-- Applying the profile `ref` would change nothing: there is none, or it is in conflict with the
    operator before it has changed anything. -/
def Harmless (disk : Disk) (kd : Kind) (ref : String) (l : LoaderState S) : Prop :=
  ∀ f, loaded disk (scoped_call kd ref) l.environ = some f →
    ∃ pre k v, StopsAt f (scoped_call kd ref) l pre k v ∧ NothingToDo f (scoped_call kd ref) l pre

/-! ### The loader -/

theorem SameConfig.trans {kd : Kind} {l₀ l₁ l₂ : LoaderState S} (h : SameConfig kd l₀ l₁)
    (h' : SameConfig kd l₁ l₂) : SameConfig kd l₀ l₂ :=
  ⟨fun k hk => (h'.environ k hk).trans (h.environ k hk), h'.applied.trans h.applied,
    h'.current.trans h.current⟩

theorem loaded_scoped {disk : Disk} {kd : Kind} {ref : String} (h : ref ≠ "") (environ : Env) :
    loaded disk (scoped_call kd ref) environ = disk.open_profile ref := by
  have href : (some ref).filter (· ≠ "") = some ref := by simp [Option.filter, h]
  simp only [loaded, call_ref, scoped_call, href]

theorem harmless_apply {disk : Disk} {kd : Kind} {ref : String} {l : LoaderState S}
    (h : Harmless disk kd ref l) : (apply_profile disk (scoped_call kd ref) l).1 = l := by
  cases hf : loaded disk (scoped_call kd ref) l.environ with
  | none => exact apply_profile_not_loaded hf
  | some f =>
    obtain ⟨pre, k, v, hst, hnothing⟩ := h f hf
    rw [apply_profile_loaded hf]
    rcases reconcile_cases disk f (scoped_call kd ref) l with ⟨hn, -⟩ | ⟨pre', k', v', hst', e, hr⟩
    · obtain ⟨post, hsplit⟩ := hst.split
      exact absurd hst.conflict (hn (k, v) (by simp [hsplit]))
    · rw [hr]
      exact (written_eq_iff hst').2 (hst.unique hst' ▸ hnothing)

/-- Applying an old profile in force again, when that does not raise, leads back over whatever the
    new one has left. -/
theorem reapply_same {disk : Disk} {kd : Kind} {old ref : String} {f : ProfileFile}
    {l : LoaderState S} (hold : old ≠ "") (hf : disk.open_profile old = some f)
    (hforce : InForce disk f kd (scoped_call kd old) l)
    (hundone : Undone disk f kd (scoped_call kd old) (attempt disk (scoped_call kd ref) l) l)
    (hret : (apply_profile disk (scoped_call kd old)
      (apply_profile disk (scoped_call kd ref) l).1).2.raises = false) :
    SameConfig kd l (apply_profile disk (scoped_call kd old)
      (apply_profile disk (scoped_call kd ref) l).1).1 := by
  have hload : loaded disk (scoped_call kd old) (apply_profile disk (scoped_call kd ref) l).1.environ
      = some f := (loaded_scoped hold _).trans hf
  rw [apply_profile_loaded hload] at hret ⊢
  rw [reconcile_of_noConflict disk (noConflict_of_returned hret)]
  obtain ⟨h1, h2, h3⟩ := reapply_restores rfl (attempt_sound disk (scoped_call kd ref) l) hforce
    hundone (attempt_left rfl)
  exact ⟨h1, h2, h3⟩

/-! ### The managers over one loader -/

/-- The two managers, the loader they share and the disk. `began` is not in the code: the loader and
    the manager's last reference when its latest reload began. -/
structure System (β : Type) (S : Env) where
  disk : Disk
  loader : LoaderState S
  manager : Kind → Config β
  began : Kind → LoaderState S × Option String

/-- The process before the managers have started. -/
def System.init (β : Type) (disk : Disk) (l : LoaderState S) (initial_profile_ref : Option String) :
    System β S :=
  ⟨disk, l, fun _ => Config.init β initial_profile_ref, fun _ => (l, none)⟩

/-- Something happens: a step of one manager, or a change of the files. -/
inductive SystemAction (β : Type) where
  | manager (kd : Kind) (a : Action β)
  | disk

/-- `began` after a step of the manager `kd`. -/
def System.note (s : System β S) (kd : Kind) : Action β → Kind → LoaderState S × Option String
  | .begin => Function.update s.began kd (s.loader, (s.manager kd).mgr.last_profile_ref)
  | _ => s.began

/-- The condition on the state in front of the swap of the reload `c`: since it began the
    configuration of its kind has not changed, and either it has no profile, or the new profile
    changes nothing when there is no old one to go back to, or the old one is in force and undoes
    what the new one sets. -/
structure Revertible (s : System β S) (kd : Kind) (c : ReloadCall β) : Prop where
  unmoved : SameConfig kd (s.began kd).1 s.loader
  reverts : ∀ ref, c.profile_ref = some ref →
    match c.old_profile_ref with
    | none => Harmless s.disk kd ref s.loader
    | some old => old ≠ "" ∧ ∃ f, s.disk.open_profile old = some f ∧
        InForce s.disk f kd (scoped_call kd old) s.loader ∧
        Undone s.disk f kd (scoped_call kd old)
          (attempt s.disk (scoped_call kd ref) s.loader) s.loader

/-- The reverting part: what the two applications of a rolled-back reload make of the loader. -/
theorem revert_same {hot : β → Bool} {preview : Kind → String → LoaderState S → Option Refusal}
    {s : System β S} {kd : Kind} {c : ReloadCall β} (hrev : Revertible s kd c)
    (hret : (apply_ref (loader_services hot preview s.disk kd) c.rollback_ref
      (apply_ref (loader_services hot preview s.disk kd) c.profile_ref s.loader).1).2 = false) :
    SameConfig kd s.loader (apply_ref (loader_services hot preview s.disk kd) c.rollback_ref
      (apply_ref (loader_services hot preview s.disk kd) c.profile_ref s.loader).1).1 := by
  unfold ReloadCall.rollback_ref at hret ⊢
  cases href : c.profile_ref with
  | none => exact ⟨fun _ _ => rfl, rfl, rfl⟩
  | some ref =>
    have hreverts := hrev.reverts ref href
    rw [href] at hret
    cases hold : c.old_profile_ref with
    | none =>
      rw [hold] at hreverts
      have hsame := harmless_apply hreverts
      show SameConfig kd s.loader (apply_profile s.disk (scoped_call kd ref) s.loader).1
      rw [hsame]
      exact ⟨fun _ _ => rfl, rfl, rfl⟩
    | some old =>
      rw [hold] at hreverts hret
      obtain ⟨hne, f, hf, hforce, hundone⟩ := hreverts
      exact reapply_same hne hf hforce hundone hret

/-- The call of a reload that has not come to its swap. -/
def Stage.call : Stage β → Option (ReloadCall β)
  | .entered c | .closing c _ | .checking c | .waiting c | .timed_out c | .drained c => some c
  | .swapped _ => none

/-- A reload is in front of its swap. -/
def BeforeSwap (m : Config β) : Prop := ∃ st c, m.active = some st ∧ st.call = some c

/-- What holds of a manager in every run: its own invariant, and that the record of a reload in front
    of its swap holds the manager's reference. -/
def Recorded (s : System β S) (kd : Kind) : Prop :=
  Inv (s.manager kd) ∧
    (BeforeSwap (s.manager kd) → (s.began kd).2 = (s.manager kd).mgr.last_profile_ref)

theorem recorded_init (disk : Disk) (l : LoaderState S) (initial_profile_ref : Option String)
    (kd : Kind) : Recorded (System.init β disk l initial_profile_ref) kd := by
  refine ⟨inv_init _, ?_⟩
  rintro ⟨st, c, hst, -⟩
  cases hst

/-- Only the beginning of a reload of this kind writes its record. -/
theorem note_of_ne_begin {s : System β S} {kd : Kind} {a : Action β} (ha : a ≠ .begin) :
    s.note kd a = s.began := by
  cases a <;> first | rfl | exact absurd rfl ha

theorem note_other {s : System β S} {kd kd' : Kind} {a : Action β} (h : kd' ≠ kd) :
    s.note kd a kd' = s.began kd' := by
  cases a <;> first | rfl | exact Function.update_of_ne h _ _

/-! ### Runs -/

variable [DecidableEq β]

inductive SystemStep (hot : β → Bool)
    (preview : Kind → String → LoaderState S → Option Refusal) :
    System β S → SystemAction β → System β S → Prop where
  | manager (s : System β S) (kd : Kind) {a : Action β} {m : Config β} {l : LoaderState S}
    (ha : a ≠ .elsewhere)
    (h : Step (loader_services hot preview s.disk kd) (s.manager kd, s.loader) a (m, l)) :
    SystemStep hot preview s (.manager kd a)
      { s with loader := l, manager := Function.update s.manager kd m, began := s.note kd a }
  | disk (s : System β S) (d : Disk) : SystemStep hot preview s .disk { s with disk := d }

/-- Up to its swap a reload leaves the manager's reference alone. -/
theorem step_keeps_ref {ω : Type} {sv : Services β ω} {m m' : Config β} {w w' : ω} {a : Action β}
    (hinv : Inv m) (hstep : Step sv (m, w) a (m', w')) (hm : BeforeSwap m') :
    m'.mgr.last_profile_ref = m.mgr.last_profile_ref ∧ (a = .begin ∨ BeforeSwap m) := by
  obtain ⟨st, c, hst, hc⟩ := hm
  cases hstep with
  | enter _ _ _ he =>
    obtain ⟨-, -, rfl⟩ := Manager.enter_eq he
    exact ⟨rfl, Or.inr ⟨st, c, hst, hc⟩⟩
  | start_built _ _ _ hb =>
    -- a manager that has not started has no reload
    have hover := hinv.stage_state hst
    rw [hb] at hover
    cases hover
  | start_failed _ _ _ _ he =>
    obtain rfl := Manager.start_build_failed he
    exact ⟨rfl, Or.inr ⟨st, c, hst, hc⟩⟩
  | begin => exact ⟨rfl, Or.inl rfl⟩
  | set_draining _ _ ha => exact ⟨rfl, Or.inr ⟨_, _, ha, rfl⟩⟩
  | close_ws _ _ _ ha => exact ⟨rfl, Or.inr ⟨_, _, ha, rfl⟩⟩
  | closed _ _ ha => exact ⟨rfl, Or.inr ⟨_, _, ha, rfl⟩⟩
  | check_drained _ _ ha => exact ⟨rfl, Or.inr ⟨_, _, ha, rfl⟩⟩
  | check_waits _ _ ha => exact ⟨rfl, Or.inr ⟨_, _, ha, rfl⟩⟩
  | drain_done _ _ ha => exact ⟨rfl, Or.inr ⟨_, _, ha, rfl⟩⟩
  | drain_timeout _ _ ha => exact ⟨rfl, Or.inr ⟨_, _, ha, rfl⟩⟩
  | publish_timeout => cases hst
  | swap =>
    cases hst
    cases hc
  | publish => cases hst
  | cancel_reload => cases hst
  | _ => exact ⟨rfl, Or.inr ⟨st, c, hst, hc⟩⟩

theorem recorded_step {hot : β → Bool}
    {preview : Kind → String → LoaderState S → Option Refusal} {s t : System β S}
    {a : SystemAction β} (h : ∀ kd, Recorded s kd) (hstep : SystemStep hot preview s a t) (kd : Kind) :
    Recorded t kd := by
  cases hstep with
  | disk => exact h kd
  | @manager kd' b m l hb hm =>
    obtain ⟨hinv, hrec⟩ := h kd
    rcases eq_or_ne kd kd' with rfl | hne
    · have hkeeps := step_keeps_ref hinv hm
      have hinv' := inv_step hinv hm
      refine ⟨by simpa using hinv', fun hbefore => ?_⟩
      simp only [Function.update_self] at hbefore ⊢
      obtain ⟨hkeep, hor⟩ := hkeeps hbefore
      rw [hkeep]
      rcases eq_or_ne b .begin with rfl | hnb
      · show (Function.update s.began kd (s.loader, (s.manager kd).mgr.last_profile_ref) kd).2 = _
        rw [Function.update_self]
      · rw [note_of_ne_begin hnb]
        exact hrec (hor.resolve_left hnb)
    · unfold Recorded
      simp only [Function.update_of_ne hne, note_other hne]
      exact ⟨hinv, hrec⟩

/-- A rolled-back reload from a revertible state leaves the configuration as it was when it
    began. -/
theorem rollback_restores (hot : β → Bool)
    (preview : Kind → String → LoaderState S → Option Refusal) (disk : Disk) (l : LoaderState S)
    (initial_profile_ref : Option String) {actions : List (SystemAction β)} {s t : System β S}
    (hrun : Run (SystemStep hot preview) (System.init β disk l initial_profile_ref) actions s)
    {kd : Kind} {c : ReloadCall β} (hactive : (s.manager kd).active = some (.drained c))
    (hrev : Revertible s kd c) {build rebuild : Build β} {calls : List (Call β)}
    (hstep : SystemStep hot preview s (.manager kd (.swap build rebuild .rolled_back calls)) t) :
    SameConfig kd (s.began kd).1 t.loader ∧
      (t.manager kd).mgr.last_profile_ref = (s.began kd).2 := by
  have hrec : ∀ kd, Recorded s kd := hrun.invariant (I := fun s => ∀ kd, Recorded s kd)
    (fun h hst kd => recorded_step h hst kd) (recorded_init disk l initial_profile_ref)
  have hbefore : BeforeSwap (s.manager kd) := ⟨_, c, hactive, rfl⟩
  generalize hact : SystemAction.manager kd (.swap build rebuild .rolled_back calls) = a at hstep
  cases hstep with
  | disk => cases hact
  | @manager kd' b m l' hb hm =>
    obtain ⟨rfl, rfl⟩ := SystemAction.manager.inj hact
    generalize hsw : Action.swap build rebuild .rolled_back calls = b' at hm
    cases hm with
    | swap _ _ build' rebuild' ha hr =>
      obtain ⟨rfl, rfl, hout, -⟩ := Action.swap.inj hsw
      obtain rfl := Stage.drained.inj (Option.some.inj (hactive.symm.trans ha))
      subst hr
      obtain ⟨hlast, hworld, hret⟩ := swap_rolled_back hout.symm
      refine ⟨?_, ?_⟩
      · show SameConfig kd (s.began kd).1 (swap _ _ _ c (s.manager kd).mgr s.loader).world
        rw [hworld]
        exact hrev.unmoved.trans (revert_same hrev hret)
      · simp only [Function.update_self]
        exact hlast.trans ((hrec kd).2 hbefore).symm
    | _ => cases hsw

/-- A step of a manager, over the loader, is one of the system. -/
theorem manager_step {hot : β → Bool} {preview : Kind → String → LoaderState S → Option Refusal}
    {s : System β S} {kd : Kind} {m : Config β} {a : Action β} {p : Config β × LoaderState S}
    (hm : s.manager kd = m) (ha : a ≠ .elsewhere)
    (h : Step (loader_services hot preview s.disk kd) (m, s.loader) a p) :
    SystemStep hot preview s (.manager kd a)
      { s with loader := p.2, manager := Function.update s.manager kd p.1, began := s.note kd a } :=
  .manager s kd ha (hm ▸ h)

/-- So is a run of it. -/
theorem manager_run {hot : β → Bool} {preview : Kind → String → LoaderState S → Option Refusal}
    {s : System β S} {kd : Kind} {actions : List (Action β)} {m : Config β}
    {p : Config β × LoaderState S} (hm : s.manager kd = m)
    (hrun : Run (Step (loader_services hot preview s.disk kd)) (m, s.loader) actions p)
    (hactions : ∀ a ∈ actions, a ≠ .elsewhere ∧ a ≠ .begin) :
    Run (SystemStep hot preview) s (actions.map (.manager kd))
      { s with loader := p.2, manager := Function.update s.manager kd p.1 } := by
  subst hm
  induction hrun with
  | nil =>
    rw [Function.update_eq_self]
    exact .nil
  | @snoc as p q a _ hst ih =>
    obtain ⟨helse, hbegin⟩ := hactions a (by simp)
    have hprev := ih fun b hb => hactions b (List.mem_append_left _ hb)
    have hlast : SystemStep hot preview
        { s with loader := p.2, manager := Function.update s.manager kd p.1 } (.manager kd a) _ :=
      manager_step (Function.update_self _ _ _) helse hst
    rw [note_of_ne_begin hbegin] at hlast
    simp only [Function.update_idem] at hlast
    rw [List.map_append]
    exact .snoc hprev hlast

end

/-! ### Two reloads -/

/-- A profile that sets these variables. -/
def named_profile (name : String) (env : List (String × String)) : ProfileFile :=
  ⟨name, ⟨some (.str name), .update .empty (env.map fun p => (p.1, .str p.2)), none, none, [], []⟩⟩

/-- The profiles `p0` and `a`, which set nothing, and `b`, which names a TTS backend. -/
def three_profiles : Disk :=
  ⟨fun r => some (named_profile r (if r = "b" then [("TTS_BACKEND", "b")] else [])), fun _ => none,
    fun _ => true⟩

/-- `p0` was applied at the start. -/
def p0_loader : LoaderState fun _ => none :=
  ⟨fun _ => none, ∅, ∅, (named_profile "p0" []).profile, by simp⟩

/-- A started manager with an idle backend and a reload at this stage. -/
def p0_manager (st : BackendState) (called : Multiset (Option String)) (active : Option (Stage ℕ)) :
    Config ℕ :=
  ⟨⟨st, some 0, 0, some "p0", some "p0", ∅⟩, 0, called, active, .over, insert 0 ∅⟩

def p0_call (ref : String) : ReloadCall ℕ := ⟨some ref, 0, some "p0"⟩

/-- The managers of the kinds run over the three profiles with nothing refused. -/
abbrev ThreeStep := SystemStep (β := ℕ) (S := fun _ => none) (fun _ => true) fun _ _ _ => none

/-- The actions of a manager up to the swap of its first reload. -/
def first_reload (ref : String) : List (Action ℕ) :=
  [.start (.built 0), .started, .call (some ref), .begin, .set_draining, .closed, .check_drain]

/-- The system with a first reload of the kind in front of its swap. -/
def System.drained {S : Env} (s : System ℕ S) (kd : Kind) (ref : String) : System ℕ S :=
  { s with
    manager := Function.update s.manager kd (p0_manager .draining 0 (some (.drained (p0_call ref))))
    began := Function.update s.began kd (s.loader, some "p0") }

theorem first_reload_run (s : System ℕ fun _ => none) (kd : Kind) (ref : String)
    (h : s.manager kd = Config.init ℕ (some "p0")) :
    Run ThreeStep s ((first_reload ref).map (.manager kd)) (s.drained kd ref) := by
  have hcalled : ∀ sv : Services ℕ (LoaderState fun _ => none), Run (Step sv)
      (Config.init ℕ (some "p0"), s.loader) [.start (.built 0), .started, .call (some ref)]
      (p0_manager .ready (some ref ::ₘ 0) none, s.loader) := fun _ =>
    ((Run.single (.start_built _ _ (.built 0) rfl rfl)).snoc (.started _ _ rfl)).snoc
      (.call (p0_manager .ready 0 none) _ (some ref) rfl)
  have hbegin : ∀ sv : Services ℕ (LoaderState fun _ => none), sv.supports_hot_reload 0 = true →
      sv.preview ref s.loader = none → Step sv (p0_manager .ready (some ref ::ₘ 0) none, s.loader)
        .begin (p0_manager .ready 0 (some (.entered (p0_call ref))), s.loader) := by
    intro sv hhot hprev
    refine .begin (p0_manager .ready (some ref ::ₘ 0) none) _ rfl rfl ?_
    simp [Manager.check_reload, p0_manager, hhot, hprev, p0_call]
  have hdrain : ∀ sv : Services ℕ (LoaderState fun _ => none), Run (Step sv)
      (p0_manager .ready 0 (some (.entered (p0_call ref))), s.loader)
      [.set_draining, .closed, .check_drain]
      (p0_manager .draining 0 (some (.drained (p0_call ref))), s.loader) := fun _ =>
    ((Run.single (.set_draining _ _ rfl)).snoc
      (.closed (p0_manager .draining 0 (some (.closing (p0_call ref) ∅))) _ rfl)).snoc
      (.check_drained (p0_manager .draining 0 (some (.checking (p0_call ref)))) _ rfl rfl)
  have hrun := ((manager_run h (hcalled _) (by simp)).snoc (manager_step (Function.update_self _ _ _)
    (by simp) (hbegin (loader_services (fun _ => true) (fun _ _ _ => none) s.disk kd) rfl rfl))).append
    (manager_run (Function.update_self _ _ _) (hdrain _) (by simp))
  simp only [Function.update_idem, System.note, Function.update_self] at hrun
  exact hrun

/-- What the swap of a first reload does. -/
def first_swap (disk : Disk) (l : LoaderState fun _ => none) (kd : Kind) (ref : String)
    (build : Build ℕ) : SwapResult ℕ (LoaderState fun _ => none) :=
  swap (loader_services (fun _ => true) (fun _ _ _ => none) disk kd) build (.built 1) (p0_call ref)
    (p0_manager .draining 0 none).mgr l

theorem first_swap_step (s : System ℕ fun _ => none) (kd : Kind) (ref : String) (build : Build ℕ)
    {o : Swapped} (h : (first_swap s.disk s.loader kd ref build).outcome = o) :
    ∃ calls m, m.active = some (.swapped o) ∧
      ThreeStep (s.drained kd ref) (.manager kd (.swap build (.built 1) o calls))
        { s with
          loader := (first_swap s.disk s.loader kd ref build).world
          manager := Function.update s.manager kd m
          began := Function.update s.began kd (s.loader, some "p0") } := by
  have hswap := Step.swap (r := first_swap s.disk s.loader kd ref build)
    (p0_manager .draining 0 (some (.drained (p0_call ref)))) s.loader build (.built 1) rfl rfl
  have hstep : ThreeStep (s.drained kd ref) _ _ :=
    manager_step (Function.update_self kd _ s.manager) (by simp) hswap
  simp only [System.drained, Function.update_idem] at hstep
  subst h
  exact ⟨_, _, rfl, hstep⟩

/-- `p0` sets nothing, so it is in force wherever nothing is recorded. -/
theorem p0_sets_nothing (k : String) :
    ¬ Sets three_profiles (named_profile "p0" []) (scoped_call .tts "p0") p0_loader k := by
  have hkeys : (merged_env p0_loader.environ (named_profile "p0" []) (scoped_call .tts "p0")).keys
      = [] := by decide
  rintro (h | ⟨h, -⟩)
  · simp [engine_value, exported, exports, report_entries, named_profile, scoped_call] at h
  · simp [hkeys] at h

theorem p0_in_force : InForce three_profiles (named_profile "p0" []) .tts (scoped_call .tts "p0")
    p0_loader := by
  have hinj : injected_keys (fun _ => none) three_profiles (named_profile "p0" [])
      (scoped_call .tts "p0") = [] := by decide
  refine ⟨rfl, fun k _ hs => absurd hs (p0_sets_nothing k), fun k _ => ?_, ?_, fun k hk => ?_⟩
  · rw [hinj]
    refine ⟨fun hk => absurd hk (Finset.notMem_empty k), fun hk => ?_⟩
    rcases hk with hk | hk
    · exact absurd (Or.inr hk) (p0_sets_nothing k)
    · cases hk
  · rw [hinj]
    intro k hk
    cases hk
  · exact absurd hk (Finset.notMem_empty k)

/-- `b` sets one variable. -/
theorem b_sets {k v : String}
    (h : (attempt three_profiles (scoped_call .tts "b") p0_loader).value k = some v) :
    k = "TTS_BACKEND" := by
  have hreached : reached (named_profile "b" [("TTS_BACKEND", "b")]) (scoped_call .tts "b") p0_loader
      = [("TTS_BACKEND", "b")] := by decide
  have hvalue : (attempt three_profiles (scoped_call .tts "b") p0_loader).value k =
      if eff_operator (fun _ => none) [] k then none
      else (reached (named_profile "b" [("TTS_BACKEND", "b")]) (scoped_call .tts "b") p0_loader).lookup
        k := by
    simp [attempt, loaded, call_ref, scoped_call, attempt_of, engine_value, exported, exports,
      report_entries, three_profiles, named_profile, Option.filter]
  rw [hvalue, hreached] at h
  by_contra hk
  simp [Dict.lookup_cons_ite, hk] at h

/-- That variable was unset and gets recorded. -/
theorem b_undone : Undone three_profiles (named_profile "p0" []) .tts (scoped_call .tts "p0")
    (attempt three_profiles (scoped_call .tts "b") p0_loader) p0_loader := by
  have hrec : (attempt three_profiles (scoped_call .tts "b") p0_loader).records "TTS_BACKEND"
      = true := by decide
  refine ⟨fun k v _ _ _ he => ?_, fun k v _ _ hv _ => ?_, fun k hk hr => ?_, fun x hx => ?_⟩
  · simp [eff_operator] at he
  · obtain rfl := b_sets hv
    rw [if_pos hrec]
    rfl
  · cases hv : (attempt three_profiles (scoped_call .tts "b") p0_loader).value k with
    | none =>
      rw [(attempt_sound three_profiles (scoped_call .tts "b") p0_loader).records k hv] at hr
      cases hr
    | some v =>
      obtain rfl := b_sets hv
      exact absurd (by decide) hk
  · have hnone : outer_refs (named_profile "p0" []).profile.env
        (uses_value (fun _ => none) (named_profile "p0" []) (scoped_call .tts "p0")) = [] := by decide
    rw [hnone] at hx
    cases hx

/-- A first TTS reload that fails, with nothing before it. -/
theorem rollback_restores_p0 : ∃ calls t,
    ThreeStep ((System.init ℕ three_profiles p0_loader (some "p0")).drained .tts "b")
      (.manager .tts (.swap .factory_raises (.built 1) .rolled_back calls)) t ∧
    SameConfig .tts p0_loader t.loader ∧ (t.manager .tts).mgr.last_profile_ref = some "p0" := by
  obtain ⟨calls, m, -, hstep⟩ := first_swap_step (System.init ℕ three_profiles p0_loader (some "p0"))
    .tts "b" .factory_raises (o := .rolled_back) (by decide)
  refine ⟨calls, _, hstep, rollback_restores _ _ three_profiles p0_loader (some "p0")
    (first_reload_run _ .tts "b" rfl) rfl ⟨⟨fun _ _ => rfl, rfl, rfl⟩, ?_⟩ hstep⟩
  rintro ref ⟨⟩
  exact ⟨by decide, _, rfl, p0_in_force, b_undone⟩

/-- A first ASR reload to `a` that succeeds. -/
theorem asr_reload_run : ∃ actions s,
    Run ThreeStep (System.init ℕ three_profiles p0_loader (some "p0")) actions s ∧
    s.disk = three_profiles ∧ s.manager .tts = Config.init ℕ (some "p0") ∧
    s.loader = (first_swap three_profiles p0_loader .asr "a" (.built 1)).world := by
  obtain ⟨calls, m, hm, hswap⟩ := first_swap_step (System.init ℕ three_profiles p0_loader (some "p0"))
    .asr "a" (.built 1) (o := .reloaded) (by decide)
  have hrun := ((first_reload_run (System.init ℕ three_profiles p0_loader (some "p0")) .asr "a"
    rfl).snoc hswap).snoc (manager_step (Function.update_self _ _ _) (by simp) (.publish m _ hm))
  exact ⟨_, _, hrun, rfl, rfl, rfl⟩

/-- After an ASR reload to `a`, a failed TTS reload to `b` makes `p0` the current profile again. -/
theorem rollback_forgets_asr : ∃ actions s calls t,
    Run ThreeStep (System.init ℕ three_profiles p0_loader (some "p0")) actions s ∧
    ThreeStep s (.manager .tts (.swap .factory_raises (.built 1) .rolled_back calls)) t ∧
    (s.began .tts).1.current.name = some (.str "a") ∧ t.loader.current.name = some (.str "p0") ∧
    ¬ SameConfig .tts (s.began .tts).1 t.loader := by
  obtain ⟨actions, s, hrun, hdisk, htts, hloader⟩ := asr_reload_run
  obtain ⟨calls, m, -, hback⟩ := first_swap_step s .tts "b" .factory_raises (o := .rolled_back)
    (by rw [hloader, hdisk]; decide)
  have hbefore : s.loader.current.name = some (.str "a") := by rw [hloader]; decide
  have hafter : (first_swap s.disk s.loader .tts "b" .factory_raises).world.current.name =
      some (.str "p0") := by rw [hloader, hdisk]; decide
  refine ⟨_, _, calls, _, hrun.append (first_reload_run s .tts "b" htts), hback, hbefore, hafter,
    fun h => ?_⟩
  have hname := congrArg Profile.name h.current
  rw [hafter] at hname
  exact absurd (hname.trans hbefore) (by decide)

end LocalVoice.BackendManager
