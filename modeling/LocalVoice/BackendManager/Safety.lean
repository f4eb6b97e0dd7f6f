import LocalVoice.BackendManager.Steps

/-! No backend is unloaded under a request. The counter never falls below the number of bodies that
    run or wait to leave (a cancelled exit leaves it too high, never too low), a reload in front of
    its swap has seen it at zero with the gate closed, and so no body runs at a swap. READY is only
    ever set with a loaded current object. -/

namespace LocalVoice.BackendManager
open LocalVoice.Lib

section
variable {β ω : Type}

/-- An `acquire()` call that has passed the counter and has not taken it back. -/
def Request.Counted : Request β → Prop
  | .waiting => False
  | _ => True

instance : DecidablePred (Request.Counted (β := β)) := fun r =>
  match r with
  | .waiting => isFalse id
  | .inside _ => isTrue trivial
  | .leaving => isTrue trivial

/-- The `acquire()` calls that hold the counter up. -/
def counted (requests : Multiset (Request β)) : ℕ := requests.countP Request.Counted

@[simp] theorem counted_waiting (rest : Multiset (Request β)) :
    counted (.waiting ::ₘ rest) = counted rest :=
  Multiset.countP_cons_of_neg (p := Request.Counted) rest id

@[simp] theorem counted_inside (b : β) (rest : Multiset (Request β)) :
    counted (.inside b ::ₘ rest) = counted rest + 1 :=
  Multiset.countP_cons_of_pos (p := Request.Counted) rest trivial

@[simp] theorem counted_leaving (rest : Multiset (Request β)) :
    counted (.leaving ::ₘ rest) = counted rest + 1 :=
  Multiset.countP_cons_of_pos (p := Request.Counted) rest trivial

theorem not_inside_of_counted {requests : Multiset (Request β)} (h : counted requests = 0) (b : β) :
    Request.inside b ∉ requests := fun hb =>
  Multiset.countP_eq_zero.1 h _ hb trivial

/-- The current object is set and loaded. -/
def Loaded (s : Config β) : Prop := ∃ b, s.mgr.current = some b ∧ b ∈ s.warm

/-- What holds while a reload is at a stage. -/
def AtStage (s : Config β) : Stage β → Prop
  | .entered c => s.mgr.state = .ready ∧ s.mgr.current = some c.old_backend
  | .closing c _ | .checking c | .waiting c | .timed_out c =>
    s.mgr.state = .draining ∧ s.mgr.current = some c.old_backend
  | .drained c =>
    s.mgr.state = .draining ∧ s.mgr.current = some c.old_backend ∧ counted s.requests = 0
  | .swapped r => s.mgr.state = .reloading ∧ (r ≠ .failed → Loaded s)

/-- The invariant of a manager: the counter covers the bodies, an object that serves or is about to
    serve is loaded, and each stage finds what the one before it left. -/
structure Inv (s : Config β) : Prop where
  count : (counted s.requests : ℤ) ≤ s.mgr.inflight_http
  loaded : s.mgr.state = .ready ∨ s.mgr.state = .draining ∨ s.boot = .publishing → Loaded s
  stage : ∀ st, s.active = some st → AtStage s st
  booting : s.boot ≠ .over → s.mgr.state = .init

theorem inv_init (ref : Option String) : Inv (Config.init β ref) :=
  ⟨by simp [Config.init, Manager.new, counted], by simp [Config.init, Manager.new],
    by simp [Config.init], fun _ => rfl⟩

/-! ### What one step keeps -/

/-- Changing the requests and the counter, with no new body outside READY. -/
theorem Inv.set_requests {s : Config β} (h : Inv s) {rq : Multiset (Request β)} {n : ℤ}
    (hn : (counted rq : ℤ) ≤ n) (hz : s.mgr.state = .ready ∨ counted rq ≤ counted s.requests) :
    Inv { s with mgr := { s.mgr with inflight_http := n }, requests := rq } := by
  refine ⟨hn, h.loaded, fun st hst => ?_, h.booting⟩
  have hold := h.stage st hst
  cases st with
  | drained c =>
    obtain ⟨hs, hc, h0⟩ := hold
    refine ⟨hs, hc, ?_⟩
    rcases hz with hz | hz
    · rw [hs] at hz
      cases hz
    · show counted rq = 0
      omega
  | _ => exact hold

/-- Moving on to a stage whose condition holds. -/
theorem Inv.set_stage {s : Config β} (h : Inv s) {st : Stage β} (hst : AtStage s st) :
    Inv { s with active := some st } := by
  refine ⟨h.count, h.loaded, fun st' hst' => ?_, h.booting⟩
  obtain rfl : st = st' := Option.some.inj hst'
  cases st <;> exact hst

/-- Letting go of the reload lock, with the state it leaves. -/
theorem Inv.release {s : Config β} (h : Inv s) {x : BackendState}
    (hx : x = .ready ∨ x = .draining → Loaded s) (hboot : s.boot ≠ .over → x = .init) :
    Inv { s with mgr := { s.mgr with state := x }, active := none } := by
  refine ⟨h.count, ?_, fun st hst => absurd hst (by simp), hboot⟩
  rintro (hr | hd | hp)
  · exact hx (Or.inl hr)
  · exact hx (Or.inr hd)
  · exact h.loaded (Or.inr (Or.inr hp))

theorem Inv.stage_state {s : Config β} (h : Inv s) {st : Stage β} (hst : s.active = some st) :
    s.boot = .over := by
  have hold := h.stage st hst
  by_contra hb
  have hinit := h.booting hb
  cases st <;> simp [AtStage, hinit] at hold

variable [DecidableEq β] {sv : Services β ω}

/-- Every step keeps the invariant. -/
theorem inv_step {s t : Config β} {w w' : ω} {a : Action β} (h : Inv s)
    (hstep : Step sv (s, w) a (t, w')) : Inv t := by
  have hcount := h.count
  cases hstep with
  | arrive => exact h.set_requests (by simpa using hcount) (by simp)
  | enter _ _ hr he =>
    obtain ⟨hready, -, rfl⟩ := Manager.enter_eq he
    rw [hr, counted_waiting] at hcount
    exact h.set_requests (by rw [counted_inside]; push_cast; omega) (Or.inl hready)
  | refuse_request _ _ hr he =>
    rw [hr, counted_waiting] at hcount
    exact h.set_requests hcount (Or.inr (by rw [hr, counted_waiting]))
  | finish _ _ hr =>
    rw [hr, counted_inside] at hcount
    exact h.set_requests (by rwa [counted_leaving])
      (Or.inr (by rw [hr, counted_inside, counted_leaving]))
  | leave _ _ hr =>
    rw [hr, counted_leaving] at hcount
    push_cast at hcount
    have hone : 1 ≤ s.mgr.inflight_http := by omega
    rw [Manager.leave_eq hone]
    exact h.set_requests (n := s.mgr.inflight_http - 1) (by omega)
      (Or.inr (by rw [hr, counted_leaving]; omega))
  | cancel_waiting _ _ hr =>
    rw [hr, counted_waiting] at hcount
    exact h.set_requests hcount (Or.inr (by rw [hr, counted_waiting]))
  | cancel_leaving _ _ hr =>
    rw [hr, counted_leaving] at hcount
    push_cast at hcount
    exact h.set_requests (n := s.mgr.inflight_http) (by omega)
      (Or.inr (by rw [hr, counted_leaving]; omega))
  | register_ws => exact ⟨h.count, h.loaded, fun st hst => h.stage st hst, h.booting⟩
  | unregister_ws => exact ⟨h.count, h.loaded, fun st hst => h.stage st hst, h.booting⟩
  | start_failed _ _ _ hb he =>
    obtain rfl := Manager.start_build_failed he
    refine ⟨h.count, fun hor => ?_, fun st hst => ?_, by simp⟩
    · simp at hor
    · have hover := h.stage_state hst
      rw [hb] at hover
      cases hover
  | start_built _ _ _ hb he =>
    obtain ⟨hs, hcur, hn⟩ := Manager.start_build_built he
    refine ⟨by rw [hn]; exact h.count, fun _ => ⟨_, hcur, Finset.mem_insert_self _ _⟩,
      fun st hst => ?_, fun _ => hs.trans (h.booting (by rw [hb]; simp))⟩
    have hover := h.stage_state hst
    rw [hb] at hover
    cases hover
  | started _ _ hb =>
    refine ⟨h.count, fun _ => h.loaded (Or.inr (Or.inr hb)), fun st hst => ?_, by simp⟩
    have hover := h.stage_state hst
    rw [hb] at hover
    cases hover
  | cancel_start _ _ hb =>
    refine ⟨h.count, fun hor => ?_, fun st hst => h.stage st hst, by simp⟩
    rcases hor with hor | hor | hor
    · exact h.loaded (Or.inl hor)
    · exact h.loaded (Or.inr (Or.inl hor))
    · cases hor
  | refuse_locked => exact h
  | call => exact ⟨h.count, h.loaded, h.stage, h.booting⟩
  | cancel_call => exact ⟨h.count, h.loaded, h.stage, h.booting⟩
  | refuse => exact ⟨h.count, h.loaded, h.stage, h.booting⟩
  | @begin _ _ _ rest c hc ha hok =>
    obtain ⟨hready, hcur, -⟩ := Manager.check_reload_ok hok
    have hb : Inv { s with active := some (.entered c) } := h.set_stage ⟨hready, hcur⟩
    exact ⟨hb.count, hb.loaded, hb.stage, hb.booting⟩
  | set_draining _ _ ha =>
    obtain ⟨hready, hcur⟩ := h.stage _ ha
    refine ⟨h.count, fun _ => h.loaded (Or.inl hready), fun st hst => ?_, fun hb => ?_⟩
    · obtain rfl := Option.some.inj hst
      exact ⟨rfl, hcur⟩
    · exact absurd (h.stage_state ha) hb
  | close_ws _ _ _ ha hp =>
    have hd := h.stage _ ha
    exact h.set_stage hd
  | closed _ _ ha =>
    have hd := h.stage _ ha
    exact h.set_stage hd
  | check_drained _ _ ha hz =>
    obtain ⟨hd, hcur⟩ := h.stage _ ha
    exact h.set_stage ⟨hd, hcur, by omega⟩
  | check_waits _ _ ha hz =>
    have hd := h.stage _ ha
    exact h.set_stage hd
  | drain_done _ _ ha hz =>
    obtain ⟨hd, hcur⟩ := h.stage _ ha
    exact h.set_stage ⟨hd, hcur, by omega⟩
  | drain_timeout _ _ ha =>
    have hd := h.stage _ ha
    exact h.set_stage hd
  | publish_timeout _ _ ha =>
    have hd := (h.stage _ ha).1
    exact h.release (fun _ => h.loaded (Or.inr (Or.inl hd)))
      fun hb => absurd (h.stage_state ha) hb
  | @swap _ _ build rebuild c r ha hr =>
    obtain ⟨hs, hn, hload⟩ := swap_spec sv build rebuild c s.mgr w s.warm
    rw [hr] at hs hn hload
    refine ⟨by rw [hn]; exact h.count, fun hor => ?_, fun st hst => ?_, fun hb => ?_⟩
    · rcases hor with hor | hor | hor
      · rw [hs] at hor
        cases hor
      · rw [hs] at hor
        cases hor
      · have hover := h.stage_state ha
        rw [hor] at hover
        cases hover
    · obtain rfl := Option.some.inj hst
      exact ⟨hs, hload⟩
    · exact absurd (h.stage_state ha) hb
  | @publish _ _ r ha =>
    obtain ⟨hs, hload⟩ := h.stage _ ha
    refine h.release (fun hx => ?_) fun hb => absurd (h.stage_state ha) hb
    cases r with
    | failed => simp [Swapped.state] at hx
    | reloaded => exact hload (by simp)
    | rolled_back => exact hload (by simp)
  | cancel_reload => exact ⟨h.count, h.loaded, fun st hst => absurd hst (by simp), h.booting⟩
  | elsewhere => exact h

/-- In every state a run reaches, a step unloads no object under an `acquire()` body, and READY means
    that the current object is set, was preloaded and was not unloaded since. -/
theorem no_unload_under_request (sv : Services β ω) (ref : Option String) (w₀ : ω)
    {actions : List (Action β)} {s : Config β} {w : ω}
    (hrun : Run (Step sv) (Config.init β ref, w₀) actions (s, w)) :
    (∀ a t, Step sv (s, w) a t → ∀ b, Call.unload b ∈ a.unloads →
      Request.inside b ∉ s.requests ∧ Request.inside b ∉ t.1.requests) ∧
    (s.mgr.state = .ready → Loaded s) := by
  have hinv : Inv s := hrun.invariant (I := fun p => Inv p.1)
    (fun {p _ q} hp hst => inv_step (s := p.1) (t := q.1) hp hst) (inv_init ref)
  refine ⟨fun a t hst b hb => ?_, fun hready => hinv.loaded (Or.inl hready)⟩
  cases hst with
  | swap _ _ _ _ ha hr =>
    have hnone := (hinv.stage _ ha).2.2
    exact ⟨not_inside_of_counted hnone b, not_inside_of_counted hnone b⟩
  | _ => simp [Action.unloads] at hb

end

/-! ### A run -/

/-- Backends that allow hot reload, over a loader without state. -/
def plain_services : Services ℕ Unit :=
  ⟨fun _ => true, fun _ => none, fun _ _ => none, fun _ _ => ((), false)⟩

/-- A started manager that serves backend 0. -/
def serving (st : BackendState) (n : ℤ) (requests : Multiset (Request ℕ))
    (called : Multiset (Option String)) (active : Option (Stage ℕ)) : Config ℕ :=
  ⟨⟨st, some 0, n, none, none, ∅⟩, requests, called, active, .over, insert 0 ∅⟩

/-- The locals of a reload without a profile. -/
def plain_call : ReloadCall ℕ := ⟨none, 0, none⟩

theorem started_run : Run (Step plain_services) (Config.init ℕ none, ())
    [.start (.built 0), .started] (serving .ready 0 0 0 none, ()) :=
  (Run.single (.start_built _ _ (.built 0) rfl rfl)).snoc (.started _ _ rfl)

/-- A reload waits for a request that entered before it. -/
def drained_actions : List (Action ℕ) :=
  [.start (.built 0), .started, .arrive, .enter, .call none, .begin, .set_draining, .closed,
    .check_drain, .finish, .leave, .drain_done]

theorem drained_run : Run (Step plain_services) (Config.init ℕ none, ()) drained_actions
    (serving .draining 0 0 0 (some (.drained plain_call)), ()) := by
  have h4 : Run (Step plain_services) (serving .ready 0 0 0 none, ()) [.arrive, .enter]
      (serving .ready 1 (.inside 0 ::ₘ 0) 0 none, ()) :=
    (Run.single (.arrive _ _)).snoc (.enter (serving .ready 0 (.waiting ::ₘ 0) 0 none) _ rfl rfl)
  have h6 : Run (Step plain_services) (serving .ready 1 (.inside 0 ::ₘ 0) 0 none, ())
      [.call none, .begin] (serving .ready 1 (.inside 0 ::ₘ 0) 0 (some (.entered plain_call)), ()) :=
    (Run.single (.call _ _ none rfl)).snoc
      (.begin (serving .ready 1 (.inside 0 ::ₘ 0) (none ::ₘ 0) none) _ rfl rfl rfl)
  have h9 : Run (Step plain_services)
      (serving .ready 1 (.inside 0 ::ₘ 0) 0 (some (.entered plain_call)), ())
      [.set_draining, .closed, .check_drain]
      (serving .draining 1 (.inside 0 ::ₘ 0) 0 (some (.waiting plain_call)), ()) :=
    ((Run.single (.set_draining _ _ rfl)).snoc (.closed
      (serving .draining 1 (.inside 0 ::ₘ 0) 0 (some (.closing plain_call ∅))) _ rfl)).snoc
      (.check_waits (serving .draining 1 (.inside 0 ::ₘ 0) 0 (some (.checking plain_call))) _ rfl
        (by decide))
  have h12 : Run (Step plain_services)
      (serving .draining 1 (.inside 0 ::ₘ 0) 0 (some (.waiting plain_call)), ())
      [.finish, .leave, .drain_done] (serving .draining 0 0 0 (some (.drained plain_call)), ()) :=
    ((Run.single (.finish _ _ rfl)).snoc (.leave
      (serving .draining 1 (.leaving ::ₘ 0) 0 (some (.waiting plain_call))) _ rfl)).snoc
      (.drain_done (serving .draining 0 0 0 (some (.waiting plain_call))) _ rfl (by decide))
  exact (((started_run.append h4).append h6).append h9).append h12

/-- The swap that follows unloads backend 0, which no body holds any more. -/
theorem no_unload_under_request_drained :
    (∀ a t, Step plain_services (serving .draining 0 0 0 (some (.drained plain_call)), ()) a t →
      ∀ b, Call.unload b ∈ a.unloads →
        Request.inside b ∉ (0 : Multiset (Request ℕ)) ∧ Request.inside b ∉ t.1.requests) ∧
    (BackendState.draining = .ready → Loaded (serving .draining 0 0 0 (some (.drained plain_call)))) :=
  no_unload_under_request plain_services none () drained_run

end LocalVoice.BackendManager
