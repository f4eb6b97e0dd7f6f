import LocalVoice.BackendManager.Safety

/-! Where a reload leaves the manager. Every way out of `reload()` sets READY or FAILED, except a
    cancellation after DRAINING was set: nothing in `reload` handles it, the reload lock is let go
    and the state stays as it is (`cancelled_drain_sticks`). -/

namespace LocalVoice.BackendManager
open LocalVoice.Lib

section
variable {β ω : Type}

/-- READY with a loaded current object, or FAILED. -/
def Resting (s : Config β) : Prop := (s.mgr.state = .ready ∧ Loaded s) ∨ s.mgr.state = .failed

/-- The condition on a step: a reload is not cancelled once it has set DRAINING. -/
def Orderly (s : Config β) : Action β → Prop
  | .cancel_reload => ∃ c, s.active = some (.entered c)
  | _ => True

/-- The condition on the call that ends: it is not turned away, or cancelled while it waits, by
    another reload in progress or by a manager that has not started. -/
def OnItsOwn (s : Config β) : Action β → Prop
  | .refuse_locked => False
  | .refuse _ | .cancel_call => s.active = none ∧ s.mgr.state ≠ .init
  | _ => True

/-- Without a reload in progress the manager is not in one of its passing states. -/
def Settled (s : Config β) : Prop :=
  s.active = none → s.mgr.state ≠ .draining ∧ s.mgr.state ≠ .reloading

/-- A settled manager that has started rests. -/
theorem Settled.resting {s : Config β} (h : Inv s) (hs : Settled s) (ha : s.active = none)
    (hinit : s.mgr.state ≠ .init) : Resting s := by
  obtain ⟨hd, hr⟩ := hs ha
  cases hst : s.mgr.state with
  | init => exact absurd hst hinit
  | ready => exact Or.inl ⟨hst, h.loaded (Or.inl hst)⟩
  | draining => exact absurd hst hd
  | reloading => exact absurd hst hr
  | failed => exact Or.inr hst

/-- In a passing state with nobody to leave it. -/
def Stuck (s : Config β) : Prop :=
  s.active = none ∧ (s.mgr.state = .draining ∨ s.mgr.state = .reloading) ∧ s.boot = .over

theorem Stuck.not_resting {s : Config β} (h : Stuck s) : ¬ Resting s := by
  obtain ⟨-, hs | hs, -⟩ := h <;> simp [Resting, hs]

variable [DecidableEq β] {sv : Services β ω}

/-- The steps keep the manager settled. -/
theorem settled_step {s t : Config β} {w w' : ω} {a : Action β} (h : Inv s) (hs : Settled s)
    (hok : Orderly s a) (hstep : Step sv (s, w) a (t, w')) : Settled t := by
  cases hstep with
  | enter _ _ hr he =>
    obtain ⟨-, -, rfl⟩ := Manager.enter_eq he
    exact hs
  | leave => exact hs
  | start_failed _ _ _ hb he =>
    obtain rfl := Manager.start_build_failed he
    intro _
    simp
  | start_built _ _ _ hb he =>
    obtain ⟨hst, -, -⟩ := Manager.start_build_built he
    intro _
    rw [hst, h.booting (by rw [hb]; simp)]
    simp
  | started => intro _; simp
  | begin => intro ha; cases ha
  | set_draining => intro ha; cases ha
  | close_ws => intro ha; cases ha
  | closed => intro ha; cases ha
  | check_drained => intro ha; cases ha
  | check_waits => intro ha; cases ha
  | drain_done => intro ha; cases ha
  | drain_timeout => intro ha; cases ha
  | publish_timeout => intro _; simp
  | swap => intro ha; cases ha
  | @publish _ _ r ha => intro _; cases r <;> simp [Swapped.state]
  | cancel_reload _ _ ha =>
    obtain ⟨c, hc⟩ := hok
    have hst := (h.stage _ hc).1
    intro _
    rw [hst]
    simp
  | _ => exact hs

/-- A step that ends a reload of its own leaves no reload in progress and a started manager. -/
theorem ends_reload_released {s t : Config β} {w w' : ω} {a : Action β} (h : Inv s)
    (hstep : Step sv (s, w) a (t, w')) (hend : a.ends_reload = true) (hown : OnItsOwn s a) :
    t.active = none ∧ t.mgr.state ≠ .init := by
  cases hstep with
  | refuse_locked => exact hown.elim
  | cancel_call => exact hown
  | refuse => exact hown
  | publish_timeout => exact ⟨rfl, by simp⟩
  | @publish _ _ r ha => exact ⟨rfl, by cases r <;> simp [Swapped.state]⟩
  | cancel_reload _ _ ha =>
    obtain ⟨st, hst⟩ := Option.isSome_iff_exists.1 ha
    refine ⟨rfl, fun hinit => ?_⟩
    have hold := h.stage st hst
    cases st <;> simp [AtStage, show s.mgr.state = .init from hinit] at hold
  | _ => simp [Action.ends_reload] at hend

/-- In a run in which no reload is cancelled after it has set DRAINING, each reload that is not
    turned away by another one or before the start leaves the manager at rest, and a manager without
    a reload in progress is never DRAINING or RELOADING. -/
theorem reload_lands (sv : Services β ω) (ref : Option String) (w₀ : ω) {actions : List (Action β)}
    {s : Config β} {w : ω}
    (hrun : Run (restrict (fun p a => Orderly p.1 a) (Step sv)) (Config.init β ref, w₀) actions
      (s, w)) :
    (∀ a t, Orderly s a → Step sv (s, w) a t → a.ends_reload = true → OnItsOwn s a →
      Resting t.1) ∧
    (s.active = none → s.mgr.state ≠ .draining ∧ s.mgr.state ≠ .reloading) := by
  have hinv : Inv s ∧ Settled s := hrun.invariant (I := fun p => Inv p.1 ∧ Settled p.1)
    (fun {p _ q} hp hst => ⟨inv_step (s := p.1) (t := q.1) hp.1 hst.2,
      settled_step (s := p.1) (t := q.1) hp.1 hp.2 hst.1 hst.2⟩)
    ⟨inv_init ref, fun _ => by simp [Config.init, Manager.new]⟩
  refine ⟨fun a t hok hst hend hown => ?_, hinv.2⟩
  obtain ⟨hactive, hstate⟩ := ends_reload_released (t := t.1) hinv.1 hst hend hown
  exact (settled_step (t := t.1) hinv.1 hinv.2 hok hst).resting (inv_step (t := t.1) hinv.1 hst)
    hactive hstate

/-! ### A cancelled drain -/

/-- A stuck manager refuses every request and every reload. -/
theorem stuck_step {s t : Config β} {w w' : ω} {a : Action β} (h : Stuck s)
    (hstep : Step sv (s, w) a (t, w')) : Stuck t := by
  obtain ⟨hactive, hpassing, hover⟩ := h
  have hready : s.mgr.state ≠ .ready := by rcases hpassing with hs | hs <;> simp [hs]
  have hstage : ∀ st, s.active ≠ some st := fun st => by simp [hactive]
  cases hstep with
  | enter _ _ hr he => exact absurd (Manager.enter_eq he).1 hready
  | start_failed _ _ _ hb => rw [hover] at hb; cases hb
  | start_built _ _ _ hb => rw [hover] at hb; cases hb
  | started _ _ hb => rw [hover] at hb; cases hb
  | cancel_start _ _ hb => rw [hover] at hb; cases hb
  | refuse_locked _ _ ha => simp [hactive] at ha
  | begin _ _ _ _ hok => exact absurd (Manager.check_reload_ok hok).1 hready
  | set_draining _ _ ha => exact absurd ha (hstage _)
  | close_ws _ _ _ ha => exact absurd ha (hstage _)
  | closed _ _ ha => exact absurd ha (hstage _)
  | check_drained _ _ ha => exact absurd ha (hstage _)
  | check_waits _ _ ha => exact absurd ha (hstage _)
  | drain_done _ _ ha => exact absurd ha (hstage _)
  | drain_timeout _ _ ha => exact absurd ha (hstage _)
  | publish_timeout _ _ ha => exact absurd ha (hstage _)
  | swap _ _ _ _ ha => exact absurd ha (hstage _)
  | publish _ _ ha => exact absurd ha (hstage _)
  | cancel_reload _ _ ha => simp [hactive] at ha
  | _ => exact ⟨hactive, hpassing, hover⟩

/-- A reload that is cancelled after it has set DRAINING leaves the manager stuck for good. -/
theorem cancelled_sticks {s t u : Config β} {w w' w'' : ω} {actions : List (Action β)} (h : Inv s)
    (hbad : ¬ Orderly s .cancel_reload) (hstep : Step sv (s, w) .cancel_reload (t, w'))
    (hrun : Run (Step sv) (t, w') actions (u, w'')) : Stuck u := by
  have ht : Stuck t := by
    cases hstep with
    | cancel_reload _ _ ha =>
      obtain ⟨st, hst⟩ := Option.isSome_iff_exists.1 ha
      refine ⟨rfl, ?_, h.stage_state hst⟩
      have hold := h.stage st hst
      cases st with
      | entered c => exact absurd ⟨c, hst⟩ hbad
      | swapped r => exact Or.inr hold.1
      | closing | checking | waiting | timed_out | drained => exact Or.inl hold.1
  exact hrun.invariant (I := fun p => Stuck p.1)
    (fun {p _ q} hp hst => stuck_step (s := p.1) (t := q.1) hp hst) ht

end

/-! ### Two runs -/

/-- Backend 1 is swapped in. -/
def swapped_state : Config ℕ :=
  { serving .reloading 0 0 0 (some (.swapped .reloaded)) with
    mgr := ⟨.reloading, some 1, 0, none, none, ∅⟩, warm := insert 1 ∅ }

theorem swapped_run : Run (Step plain_services) (Config.init ℕ none, ())
    (drained_actions ++ [.swap (.built 1) .factory_raises .reloaded [.unload 0, .preload 1]])
    (swapped_state, ()) :=
  drained_run.snoc (.swap (c := plain_call) (r := ⟨⟨.reloading, some 1, 0, none, none, ∅⟩, (),
    .reloaded, [.unload 0, .preload 1]⟩) _ _ (.built 1) .factory_raises rfl rfl)

/-- Publishing the new backend leaves the manager at rest. -/
theorem reload_lands_swapped :
    Resting { swapped_state with mgr := ⟨.ready, some 1, 0, none, none, ∅⟩, active := none } := by
  have hrun : Run (restrict (fun p a => Orderly p.1 a) (Step plain_services)) (Config.init ℕ none, ())
      _ (swapped_state, ()) := swapped_run.restrict_of (by simp [drained_actions, Orderly])
  exact (reload_lands plain_services none () hrun).1 .publish (_, ()) trivial
    (.publish swapped_state () rfl) rfl trivial

/-- A reload that is closing the one session there is. -/
def closing_session : Config ℕ :=
  ⟨⟨.draining, some 0, 0, none, none, insert 7 ∅⟩, 0, 0, some (.closing plain_call (insert 7 ∅)),
    .over, insert 0 ∅⟩

theorem closing_run : Run (Step plain_services) (Config.init ℕ none, ())
    [.start (.built 0), .started, .register_ws 7, .call none, .begin, .set_draining]
    (closing_session, ()) := by
  have hrun : Run (Step plain_services) (serving .ready 0 0 0 none, ())
      [.register_ws 7, .call none, .begin, .set_draining] (closing_session, ()) :=
    (((Run.single (.register_ws _ _ 7)).snoc (.call _ _ none rfl)).snoc
      (.begin { serving .ready 0 0 (none ::ₘ 0) none with
        mgr := ⟨.ready, some 0, 0, none, none, insert 7 ∅⟩ } _ rfl rfl rfl)).snoc
      (.set_draining { serving .ready 0 0 0 (some (.entered plain_call)) with
        mgr := ⟨.ready, some 0, 0, none, none, insert 7 ∅⟩ } _ rfl)
  exact started_run.append hrun

/-- The reload is cancelled while it closes the session; no later step brings the manager back. -/
theorem cancelled_drain_sticks : ∃ s t : Config ℕ × Unit,
    Run (Step plain_services) (Config.init ℕ none, ())
      [.start (.built 0), .started, .register_ws 7, .call none, .begin, .set_draining] s ∧
    Step plain_services s .cancel_reload t ∧
    ∀ actions u, Run (Step plain_services) t actions u → ¬ Resting u.1 := by
  have hinv := closing_run.invariant (I := fun p => Inv p.1)
    (fun {p _ q} hp hst => inv_step (s := p.1) (t := q.1) hp hst) (inv_init none)
  have hcancel : Step plain_services (closing_session, ()) .cancel_reload
      ({ closing_session with active := none }, ()) := .cancel_reload _ _ rfl
  refine ⟨_, _, closing_run, hcancel, fun actions u hu => ?_⟩
  have hstuck : Stuck u.1 := cancelled_sticks hinv (fun h => ?_) hcancel hu
  · exact hstuck.not_resting
  · obtain ⟨c, hc⟩ := h
    cases hc

end LocalVoice.BackendManager
