import LocalVoice.BackendManager.Safety

/-! The handler tasks of the WebSocket sessions beside the manager's steps. A reload closes the
    sessions of its snapshot and asks their tasks to stop; what it waits for afterwards are the HTTP
    leases alone. So a session is gone at the unload if it was in the snapshot and its handler has
    unwound by then, and a session that registers during the drain is never asked. -/

namespace LocalVoice.BackendManager
open LocalVoice.Lib

/-- The task of a session's handler; `cancelled`: asked to stop and not done. -/
inductive Handler where | live | cancelled | done
  deriving DecidableEq

/-- `if not task.done(): task.cancel()`. -/
def Handler.cancel : Handler → Handler
  | .done => .done
  | _ => .cancelled

/-- A manager over the state of the profile loader, with the task of each session. -/
structure Sessions (β ω : Type) where
  cfg : Config β
  world : ω
  tasks : ℕ → Handler

def Sessions.init {β ω : Type} (ref : Option String) (w : ω) : Sessions β ω :=
  ⟨.init β ref, w, fun _ => .live⟩

/-- A step of the manager; or a handler returns, or is cancelled by somebody else. -/
inductive SessionAction (β : Type) where
  | manager (a : Action β)
  | ends (h : ℕ)
  | cancelled (h : ℕ)

/-- The steps that are not taken by a session or by the loop over the sessions. -/
def Action.of_manager {β : Type} : Action β → Bool
  | .register_ws _ | .close_ws _ => false
  | _ => true

section
variable {β ω : Type}

/-- The sessions of the snapshot that the loop has yet to come to; `none` before the snapshot is
    taken and from the swap on. -/
def Stage.left : Stage β → Option (Finset ℕ)
  | .closing _ pending => some pending
  | .checking _ | .waiting _ | .timed_out _ | .drained _ => some ∅
  | .entered _ | .swapped _ => none

def Config.left (s : Config β) : Option (Finset ℕ) := s.active.bind Stage.left

theorem Handler.cancel_ne_live (h : Handler) : h.cancel ≠ .live := by
  cases h <;> decide

/-- Between the snapshot and the swap, a registered session that was not asked to stop is one the
    loop has yet to come to. -/
def Asked (s : Sessions β ω) : Prop :=
  ∀ pending, s.cfg.left = some pending → ∀ h ∈ s.cfg.mgr.ws_handles, s.tasks h = .live → h ∈ pending

/-- Sessions that end or are asked to stop. -/
theorem Asked.update {s : Sessions β ω} (h : Asked s) {i : ℕ} {x : Handler} (hx : x ≠ .live) :
    Asked { s with tasks := Function.update s.tasks i x } := by
  intro pending hp j hj hlive
  by_cases hij : j = i
  · subst hij
    simp only [Function.update_self] at hlive
    exact absurd hlive hx
  · simp only [Function.update_of_ne hij] at hlive
    exact h pending hp j hj hlive

variable [DecidableEq β]

/-- One step of a manager and its sessions. A handler registers itself, so its task is not done. -/
inductive SessionStep (sv : Services β ω) :
    Sessions β ω → SessionAction β → Sessions β ω → Prop where
  | manager (s : Sessions β ω) {a : Action β} {c : Config β} {w : ω} (ha : a.of_manager = true)
    (h : Step sv (s.cfg, s.world) a (c, w)) :
    SessionStep sv s (.manager a) { s with cfg := c, world := w }
  | register_ws (s : Sessions β ω) {h : ℕ} {c : Config β} {w : ω} (hlive : s.tasks h ≠ .done)
    (hst : Step sv (s.cfg, s.world) (.register_ws h) (c, w)) :
    SessionStep sv s (.manager (.register_ws h)) { s with cfg := c, world := w }
  | close_ws (s : Sessions β ω) {h : ℕ} {c : Config β} {w : ω}
    (hst : Step sv (s.cfg, s.world) (.close_ws h) (c, w)) :
    SessionStep sv s (.manager (.close_ws h))
      ⟨c, w, Function.update s.tasks h (s.tasks h).cancel⟩
  | ends (s : Sessions β ω) (h : ℕ) :
    SessionStep sv s (.ends h) { s with tasks := Function.update s.tasks h .done }
  | cancelled (s : Sessions β ω) (h : ℕ) :
    SessionStep sv s (.cancelled h)
      { s with tasks := Function.update s.tasks h (s.tasks h).cancel }

/-- The condition on a step: no session registers between the snapshot and the swap, and the swap is
    not begun while a registered session that was asked to stop is still unwinding. -/
def Unwound (s : Sessions β ω) : SessionAction β → Prop
  | .manager (.register_ws _) => s.cfg.left = none
  | .manager (.swap _ _ _ _) => ∀ h ∈ s.cfg.mgr.ws_handles, s.tasks h ≠ .cancelled
  | _ => True

/-- What a step of the manager does to the handles and to the loop over them. -/
theorem Step.left_cases {sv : Services β ω} {s t : Config β} {w w' : ω} {a : Action β}
    (h : Step sv (s, w) a (t, w')) (ha : a.of_manager = true) :
    t.left = none ∨ t.mgr.ws_handles ⊆ s.mgr.ws_handles ∧
      (t.left = s.left ∨ t.left = some s.mgr.ws_handles) := by
  cases h with
  | enter _ _ _ he =>
    obtain ⟨-, -, rfl⟩ := Manager.enter_eq he
    exact Or.inr ⟨Finset.Subset.refl _, Or.inl rfl⟩
  | register_ws | close_ws => cases ha
  | unregister_ws => exact Or.inr ⟨Finset.erase_subset _ _, Or.inl rfl⟩
  | start_failed _ _ _ _ he =>
    obtain rfl := Manager.start_build_failed he
    exact Or.inr ⟨Finset.Subset.refl _, Or.inl rfl⟩
  | start_built _ _ build _ he =>
    cases build with
    | built b =>
      obtain ⟨rfl, -⟩ := Prod.mk.inj he
      exact Or.inr ⟨Finset.Subset.refl _, Or.inl rfl⟩
    | _ => cases he
  | begin => exact Or.inl rfl
  | set_draining => exact Or.inr ⟨Finset.Subset.refl _, Or.inr rfl⟩
  | closed _ _ hactive | check_drained _ _ hactive | check_waits _ _ hactive
  | drain_done _ _ hactive | drain_timeout _ _ hactive =>
    exact Or.inr ⟨Finset.Subset.refl _, Or.inl (by rw [Config.left, Config.left, hactive]; rfl)⟩
  | publish_timeout | swap | publish | cancel_reload => exact Or.inl rfl
  | _ => exact Or.inr ⟨Finset.Subset.refl _, Or.inl rfl⟩

/-- The unloader is called in a swap alone. -/
theorem Step.drained_of_unloads {sv : Services β ω} {p q : Config β × ω} {a : Action β}
    {call : Call β} (h : Step sv p a q) (hc : call ∈ a.unloads) :
    (∃ build rebuild r calls, a = .swap build rebuild r calls) ∧
      ∃ c, p.1.active = some (.drained c) := by
  cases h with
  | swap _ _ build rebuild ha _ => exact ⟨⟨build, rebuild, _, _, rfl⟩, _, ha⟩
  | _ => simp [Action.unloads] at hc

theorem asked_step {sv : Services β ω} {s t : Sessions β ω} {a : SessionAction β} (h : Asked s)
    (hok : Unwound s a) (hstep : SessionStep sv s a t) : Asked t := by
  cases hstep with
  | manager ha hst =>
    intro pending hp i hi hlive
    rcases hst.left_cases ha with hnone | ⟨hsub, hsame | hsnap⟩
    · exact absurd (hnone.symm.trans hp) nofun
    · exact h pending (hsame.symm.trans hp) i (hsub hi) hlive
    · obtain rfl := Option.some.inj (hsnap.symm.trans hp)
      exact hsub hi
  | register_ws hlive hst =>
    intro pending hp
    cases hst
    exact absurd (hok.symm.trans hp) nofun
  | @close_ws i c w hst =>
    cases hst with
    | @close_ws _ _ rc pending _ ha hp =>
      intro pending' hp' j hj hlive
      obtain rfl : pending.erase i = pending' := Option.some.inj hp'
      by_cases hij : j = i
      · subst hij
        simp only [Function.update_self] at hlive
        exact absurd hlive (Handler.cancel_ne_live _)
      · simp only [Function.update_of_ne hij] at hlive
        refine Finset.mem_erase.2 ⟨hij, h pending ?_ j hj hlive⟩
        rw [Config.left, ha]
        rfl
  | ends i => exact h.update nofun
  | cancelled i => exact h.update (Handler.cancel_ne_live _)

/-- In a run whose steps meet the condition, no session is left at an unload: each handle that is
    still registered belongs to a task that is done. -/
theorem no_session_at_unload (sv : Services β ω) (ref : Option String) (w₀ : ω)
    {actions : List (SessionAction β)} {s t : Sessions β ω} {a : Action β} {c : Call β}
    (hrun : Run (restrict Unwound (SessionStep sv)) (Sessions.init ref w₀) actions s)
    (hstep : restrict Unwound (SessionStep sv) s (.manager a) t) (hc : c ∈ a.unloads) :
    ∀ h ∈ s.cfg.mgr.ws_handles, s.tasks h = .done := by
  have hasked : Asked s := hrun.invariant (I := Asked) (fun h hst => asked_step h hst.1 hst.2)
    fun pending hp => by cases hp
  obtain ⟨hok, hst⟩ := hstep
  intro h hh
  cases hst with
  | register_ws | close_ws => simp [Action.unloads] at hc
  | manager _ hst =>
    obtain ⟨⟨_, _, _, _, rfl⟩, _, ha⟩ := hst.drained_of_unloads hc
    cases htask : s.tasks h with
    | done => rfl
    | cancelled => exact absurd htask (hok h hh)
    | live =>
      have hmem := hasked ∅ (by rw [Config.left, ha]; rfl) h hh htask
      simp at hmem

end

/-! ### Two runs -/

/-- A manager that serves backend 0 to sessions. -/
def talking (st : BackendState) (handles : Finset ℕ) (called : Multiset (Option String))
    (active : Option (Stage ℕ)) : Config ℕ :=
  ⟨⟨st, some 0, 0, none, none, handles⟩, 0, called, active, .over, insert 0 ∅⟩

/-- Session 0 was asked to stop, the others were not. -/
def one_cancelled : ℕ → Handler := Function.update (fun _ => .live) 0 .cancelled

def one_done : ℕ → Handler := Function.update one_cancelled 0 .done

/-- Session 0 registers, and a reload takes its snapshot. -/
def snapshot_actions : List (SessionAction ℕ) :=
  [.manager (.start (.built 0)), .manager .started, .manager (.register_ws 0), .manager (.call none),
    .manager .begin, .manager .set_draining]

theorem snapshot_run : Run (restrict Unwound (SessionStep plain_services))
    (Sessions.init none ()) snapshot_actions
    ⟨talking .draining {0} 0 (some (.closing plain_call {0})), (), fun _ => .live⟩ := by
  have h1 : Run (restrict Unwound (SessionStep plain_services)) (Sessions.init none ())
      [.manager (.start (.built 0)), .manager .started, .manager (.register_ws 0)]
      ⟨talking .ready {0} 0 none, (), fun _ => .live⟩ :=
    ((Run.single ⟨by trivial, .manager _ rfl (.start_built _ _ (.built 0) rfl rfl)⟩).snoc
      ⟨by trivial, .manager _ rfl (.started _ _ rfl)⟩).snoc
      ⟨by rfl, .register_ws _ (by decide) (.register_ws _ _ 0)⟩
  have h2 : Run (restrict Unwound (SessionStep plain_services))
      ⟨talking .ready {0} 0 none, (), fun _ => .live⟩
      [.manager (.call none), .manager .begin, .manager .set_draining]
      ⟨talking .draining {0} 0 (some (.closing plain_call {0})), (), fun _ => .live⟩ :=
    ((Run.single ⟨by trivial, .manager _ rfl (.call _ _ none rfl)⟩).snoc ⟨by trivial, .manager _ rfl
      (.begin (talking .ready {0} (none ::ₘ 0) none) _ rfl rfl rfl)⟩).snoc
      ⟨by trivial, .manager _ rfl (.set_draining _ _ rfl)⟩
  exact h1.append h2

/-- Its handler unwinds before the drain is over. -/
theorem no_session_at_unload_unwound : one_done 0 = .done := by
  have hrest : Run (restrict Unwound (SessionStep plain_services))
      ⟨talking .draining {0} 0 (some (.closing plain_call {0})), (), fun _ => .live⟩
      [.manager (.close_ws 0), .ends 0, .manager .closed, .manager .check_drain]
      ⟨talking .draining {0} 0 (some (.drained plain_call)), (), one_done⟩ :=
    (((Run.single ⟨by trivial, .close_ws _ (.close_ws _ _ 0 rfl (by decide))⟩).snoc
      ⟨by trivial, .ends _ 0⟩).snoc ⟨by trivial, .manager _ rfl (.closed _ _ rfl)⟩).snoc
      ⟨by trivial, .manager _ rfl (.check_drained _ _ rfl rfl)⟩
  have hdone : ∀ h ∈ ({0} : Finset ℕ), one_done h ≠ .cancelled := by decide
  exact no_session_at_unload plain_services none () (snapshot_run.append hrest)
    ⟨by exact hdone, .manager _ rfl (.swap _ _ (.built 1) (.built 1) rfl rfl)⟩
    (List.mem_cons_self ..) 0 (by decide)

/-- Session 0 is asked to stop and session 1 registers during the drain; with no lease out the swap
    follows at once, and unloads backend 0 while one of them unwinds and the other one runs. -/
theorem sessions_survive : ¬ ∀ (actions : List (SessionAction ℕ)) (s t : Sessions ℕ Unit)
    (a : Action ℕ) (c : Call ℕ), Run (SessionStep plain_services) (Sessions.init none ()) actions s →
    SessionStep plain_services s (.manager a) t → c ∈ a.unloads →
    ∀ h ∈ s.cfg.mgr.ws_handles, s.tasks h = .done := by
  intro hall
  have hrest : Run (SessionStep plain_services)
      ⟨talking .draining {0} 0 (some (.closing plain_call {0})), (), fun _ => .live⟩
      [.manager (.register_ws 1), .manager (.close_ws 0), .manager .closed, .manager .check_drain]
      ⟨talking .draining {1, 0} 0 (some (.drained plain_call)), (), one_cancelled⟩ :=
    (((Run.single (.register_ws _ (by decide) (.register_ws _ _ 1))).snoc
      (.close_ws _ (.close_ws _ _ 0 rfl (by decide)))).snoc
      (.manager _ rfl (.closed _ _ rfl))).snoc (.manager _ rfl (.check_drained _ _ rfl rfl))
  have hdone := hall _ _ _ _ (.unload 0) ((snapshot_run.mono fun h => h.2).append hrest)
    (.manager _ rfl (.swap _ _ (.built 1) (.built 1) rfl rfl)) (List.mem_cons_self ..) 1 (by decide)
  exact absurd hdone (by decide)

end LocalVoice.BackendManager
