import Mathlib.Algebra.BigOperators.Group.Multiset.Defs
import Mathlib.Algebra.Group.Nat.Defs
import LocalVoice.BackendManager.Safety

/-! The in-flight counter against the tasks of the event loop, with the state lock written out. One
    task runs at a time, up to an await that suspends it; a cancellation is delivered to a suspended
    task. Entering `async with self._state_lock` suspends the task if the lock is taken, and only
    then. No section under the lock suspends with it, so whenever the loop picks its next task the
    lock is free, nobody waits for it, and the exit of `acquire()` is never cut off.

        acquire:  locking gate ─▶ locked gate ─▶ inside b ─▶ locking uncount ─▶ locked uncount ─▶
        reload:   set_draining ─▶ closing ─▶ check_zero ─▶ zero ⇄ wait_zero ─▶ drained ─▶
                  set_reloading ─▶ swapping ─▶ publish -/

namespace LocalVoice.BackendManager
open LocalVoice.Lib

/-- The sections under `async with self._state_lock`. -/
inductive Section (β : Type) where
  | gate
  | uncount
  | started
  | set_draining (c : ReloadCall β)
  | check_zero (c : ReloadCall β)
  | wait_zero (c : ReloadCall β)
  | give_up (c : ReloadCall β) (timed_out : Bool)
  | set_reloading (c : ReloadCall β)
  | publish (st : BackendState)

/-- Where a task stands: at the lock, in a section, in the body of `acquire()`, or at another point
    of `reload()`. `zero` is `_wait_zero` before its start or in `_drained_cond.wait()`. -/
inductive Pos (β : Type) where
  | locking (x : Section β)
  | locked (x : Section β)
  | inside (b : β)
  | closing (c : ReloadCall β)
  | zero (c : ReloadCall β)
  | drained (c : ReloadCall β)
  | timed_out (c : ReloadCall β)
  | swapping (c : ReloadCall β)

/-- How a task goes on after a section or a cancellation. -/
inductive After (β : Type) where
  | runs (p : Pos β)
  | suspends (p : Pos β)
  | ends

/-- The event loop of a manager; `running` is the task that has the thread. -/
structure EventLoop (β ω : Type) where
  mgr : Manager β
  world : ω
  state_lock : Bool
  reload_lock : Bool
  running : Option (Pos β)
  suspended : Multiset (Pos β)

section
variable {β ω : Type}

def EventLoop.init (ref : Option String) (w : ω) : EventLoop β ω :=
  ⟨.new β ref, w, false, false, none, 0⟩

/-- A section, up to the release of the lock. -/
def Section.run (m : Manager β) : Section β → Manager β × After β
  | .gate =>
    match m.enter with
    | some (b, m') => (m', .runs (.inside b))
    | none => (m, .ends)
  | .uncount => (m.leave, .ends)
  | .started => ({ m with state := .ready }, .ends)
  | .set_draining c => ({ m with state := .draining }, .runs (.closing c))
  | .check_zero c =>
    (m, if m.inflight_http = 0 then .runs (.locking (.set_reloading c)) else .suspends (.zero c))
  | .wait_zero c => (m, if 0 < m.inflight_http then .suspends (.zero c) else .suspends (.drained c))
  | .give_up c timed_out => (m, if timed_out then .suspends (.timed_out c) else .ends)
  | .set_reloading c => ({ m with state := .reloading }, .runs (.swapping c))
  | .publish st => ({ m with state := st }, .ends)

/-- The sections of `reload()`, which holds the reload lock until it ends. -/
def Section.of_reload : Section β → Bool
  | .gate | .uncount | .started => false
  | _ => true

def Pos.of_reload : Pos β → Bool
  | .locking x | .locked x => x.of_reload
  | .inside _ => false
  | _ => true

/-- Where a suspended task goes on when what it waits for is there. -/
def Pos.resumed : Pos β → Pos β
  | .zero c => .locking (.wait_zero c)
  | .drained c => .locking (.set_reloading c)
  | .timed_out _ => .locking (.publish .ready)
  | p => p

/-- Where a suspended task goes on when it is cancelled: a body is left, a condition is waited for
    until its lock is taken again, and everything else ends. -/
def Pos.cancelled : Pos β → After β
  | .inside _ => .runs (.locking .uncount)
  | .zero c => .runs (.locking (.give_up c false))
  | _ => .ends

/-- The task that runs stands at `p` no more and goes on as `next` says. -/
def EventLoop.proceed (s : EventLoop β ω) (p : Pos β) : After β → EventLoop β ω
  | .runs q => { s with running := some q }
  | .suspends q => { s with running := none, suspended := q ::ₘ s.suspended }
  | .ends => { s with running := none, reload_lock := s.reload_lock && !p.of_reload }

/-- What happens in a step. -/
inductive Turn where
  | arrive | start | call
  | take | blocked | granted | leave_section
  | swap | awaits | body_ends | closed
  | resume | timeout | cancel | elsewhere
  deriving DecidableEq

variable [DecidableEq β]

/-- One step of the event loop. -/
inductive Turns (sv : Services β ω) : EventLoop β ω → Turn → EventLoop β ω → Prop where
  /- new tasks -/
  | arrive (s : EventLoop β ω) (hr : s.running = none) :
    Turns sv s .arrive { s with running := some (.locking .gate) }
  | start_failed (s : EventLoop β ω) (build : Build β) {m : Manager β} (hr : s.running = none)
    (hi : s.mgr.state = .init) (h : s.mgr.start_build build = (m, none)) :
    Turns sv s .start { s with mgr := m }
  | start_built (s : EventLoop β ω) (build : Build β) {m : Manager β} {b : β}
    (hr : s.running = none) (hi : s.mgr.state = .init)
    (h : s.mgr.start_build build = (m, some b)) :
    Turns sv s .start { s with mgr := m, running := some (.locking .started) }
  | call_refused (s : EventLoop β ω) (ref : Option String) (hr : s.running = none)
    (h : s.reload_lock = true ∨ ∃ r, s.mgr.check_reload sv ref s.world = .error r) :
    Turns sv s .call s
  | call (s : EventLoop β ω) (ref : Option String) {c : ReloadCall β} (hr : s.running = none)
    (hl : s.reload_lock = false) (h : s.mgr.check_reload sv ref s.world = .ok c) :
    Turns sv s .call
      { s with reload_lock := true, running := some (.locking (.set_draining c)) }
  /- the state lock: a free one is taken without a suspension -/
  | take (s : EventLoop β ω) {x : Section β} (hr : s.running = some (.locking x))
    (hl : s.state_lock = false) :
    Turns sv s .take { s with state_lock := true, running := some (.locked x) }
  | blocked (s : EventLoop β ω) {x : Section β} (hr : s.running = some (.locking x))
    (hl : s.state_lock = true) :
    Turns sv s .blocked { s with running := none, suspended := .locking x ::ₘ s.suspended }
  | granted (s : EventLoop β ω) {x : Section β} {rest : Multiset (Pos β)} (hr : s.running = none)
    (hs : s.suspended = .locking x ::ₘ rest) (hl : s.state_lock = false) :
    Turns sv s .granted
      { s with state_lock := true, running := some (.locked x), suspended := rest }
  | leave_section (s : EventLoop β ω) {x : Section β} {m : Manager β} {next : After β}
    (hr : s.running = some (.locked x)) (h : x.run s.mgr = (m, next)) :
    Turns sv s .leave_section
      ({ s with mgr := m, state_lock := false }.proceed (.locked x) next)
  /- the running task outside the lock -/
  | swap (s : EventLoop β ω) (build rebuild : Build β) {c : ReloadCall β} {r : SwapResult β ω}
    (hr : s.running = some (.swapping c)) (h : swap sv build rebuild c s.mgr s.world = r) :
    Turns sv s .swap { s with
      mgr := r.mgr
      world := r.world
      running := some (.locking (.publish r.outcome.state)) }
  | body_awaits (s : EventLoop β ω) {b : β} (hr : s.running = some (.inside b)) :
    Turns sv s .awaits { s with running := none, suspended := .inside b ::ₘ s.suspended }
  | body_ends (s : EventLoop β ω) {b : β} (hr : s.running = some (.inside b)) :
    Turns sv s .body_ends { s with running := some (.locking .uncount) }
  | closing_awaits (s : EventLoop β ω) {c : ReloadCall β} (hr : s.running = some (.closing c)) :
    Turns sv s .awaits { s with running := none, suspended := .closing c ::ₘ s.suspended }
  | closed (s : EventLoop β ω) {c : ReloadCall β} (hr : s.running = some (.closing c)) :
    Turns sv s .closed { s with running := some (.locking (.check_zero c)) }
  /- a suspended task gets the thread back -/
  | resume (s : EventLoop β ω) {p : Pos β} {rest : Multiset (Pos β)} (hr : s.running = none)
    (hs : s.suspended = p ::ₘ rest) (hp : ∀ x, p ≠ .locking x) :
    Turns sv s .resume { s with running := some p.resumed, suspended := rest }
  | timeout (s : EventLoop β ω) {c : ReloadCall β} {rest : Multiset (Pos β)}
    (hr : s.running = none) (hs : s.suspended = .zero c ::ₘ rest) :
    Turns sv s .timeout
      { s with running := some (.locking (.give_up c true)), suspended := rest }
  | cancel (s : EventLoop β ω) {p : Pos β} {rest : Multiset (Pos β)} (hr : s.running = none)
    (hs : s.suspended = p ::ₘ rest) :
    Turns sv s .cancel ({ s with suspended := rest }.proceed p p.cancelled)
  /- sessions come and go, the rest of the process changes the loader's state -/
  | elsewhere (s : EventLoop β ω) (handles : Finset ℕ) (w : ω) (hr : s.running = none) :
    Turns sv s .elsewhere
      { s with mgr := { s.mgr with ws_handles := handles }, world := w }

/-! ### The bodies that were entered and have not finished -/

def Section.unfinished : Section β → ℕ
  | .uncount => 1
  | _ => 0

/-- 1 from the entry of a body to the end of its `acquire()`. -/
def Pos.unfinished : Pos β → ℕ
  | .locking x | .locked x => x.unfinished
  | .inside _ => 1
  | _ => 0

def After.unfinished : After β → ℕ
  | .runs p | .suspends p => p.unfinished
  | .ends => 0

/-- The `acquire()` bodies that were entered and whose `acquire()` is not over. -/
def EventLoop.unfinished (s : EventLoop β ω) : ℕ :=
  s.running.elim 0 Pos.unfinished + (s.suspended.map Pos.unfinished).sum

/-- A body at one of its own awaits. -/
def Pos.InBody : Pos β → Prop
  | .inside _ => True
  | _ => False

instance : DecidablePred (Pos.InBody (β := β)) := fun p =>
  match p with
  | .inside _ => isTrue trivial
  | .locking _ | .locked _ | .closing _ | .zero _ | .drained _ | .timed_out _ | .swapping _ =>
    isFalse id

/-- Neither at the state lock nor in one of its sections. -/
def Pos.OffLock : Pos β → Prop
  | .locking _ | .locked _ => False
  | _ => True

end

section
variable {β ω : Type}

/-- A section moves the counter by what it does to the bodies. -/
theorem Section.run_unfinished {x : Section β} {m m' : Manager β} {next : After β}
    (h : x.run m = (m', next)) (hpos : (x.unfinished : ℤ) ≤ m.inflight_http) :
    m'.inflight_http + x.unfinished = m.inflight_http + next.unfinished := by
  cases x with
  | gate =>
    simp only [Section.run] at h
    split at h
    · rename_i b m₁ he
      obtain ⟨-, -, rfl⟩ := Manager.enter_eq he
      cases h
      simp [Section.unfinished, After.unfinished, Pos.unfinished]
    · cases h
      simp [Section.unfinished, After.unfinished]
  | uncount =>
    cases h
    rw [Manager.leave_eq hpos]
    simp [Section.unfinished, After.unfinished]
  | check_zero c =>
    cases h
    by_cases hz : m.inflight_http = 0 <;>
      simp [hz, Section.unfinished, After.unfinished, Pos.unfinished]
  | wait_zero c =>
    cases h
    by_cases hz : 0 < m.inflight_http <;>
      simp [hz, Section.unfinished, After.unfinished, Pos.unfinished]
  | give_up c timed_out =>
    cases h
    cases timed_out <;> simp [Section.unfinished, After.unfinished, Pos.unfinished]
  | _ =>
    cases h
    simp [Section.unfinished, After.unfinished, Pos.unfinished]

/-- A section never suspends its task at the lock or inside a section. -/
theorem Section.suspends_off_lock {x : Section β} {m m' : Manager β} {p : Pos β}
    (h : x.run m = (m', .suspends p)) : p.OffLock := by
  cases x with
  | gate =>
    simp only [Section.run] at h
    split at h <;> cases h
  | check_zero c =>
    simp only [Section.run] at h
    split at h <;> cases h
    trivial
  | wait_zero c =>
    simp only [Section.run] at h
    split at h <;> cases h <;> trivial
  | give_up c timed_out =>
    simp only [Section.run] at h
    split at h <;> cases h
    trivial
  | _ => cases h

/-- A section leads on to the outside of the lock or to its next `async with`. -/
theorem Section.runs_unlocked {x y : Section β} {m m' : Manager β} :
    x.run m ≠ (m', .runs (.locked y)) := by
  intro h
  cases x with
  | gate =>
    simp only [Section.run] at h
    split at h <;> cases h
  | check_zero c =>
    simp only [Section.run] at h
    split at h <;> cases h
  | wait_zero c =>
    simp only [Section.run] at h
    split at h <;> cases h
  | give_up c timed_out =>
    simp only [Section.run] at h
    split at h <;> cases h
  | _ => cases h

theorem Pos.cancelled_unfinished {p : Pos β} (h : p.OffLock) :
    p.cancelled.unfinished = p.unfinished := by
  cases p <;> first | exact h.elim | rfl

theorem Pos.resumed_unfinished (p : Pos β) : p.resumed.unfinished = p.unfinished := by
  cases p <;> rfl

theorem EventLoop.proceed_mgr (s : EventLoop β ω) (p : Pos β) (next : After β) :
    (s.proceed p next).mgr = s.mgr := by
  cases next <;> rfl

theorem EventLoop.proceed_state_lock (s : EventLoop β ω) (p : Pos β) (next : After β) :
    (s.proceed p next).state_lock = s.state_lock := by
  cases next <;> rfl

theorem EventLoop.proceed_unfinished (s : EventLoop β ω) (p : Pos β) (next : After β) :
    (s.proceed p next).unfinished = next.unfinished + (s.suspended.map Pos.unfinished).sum := by
  cases next <;> simp [EventLoop.proceed, EventLoop.unfinished, After.unfinished]

/-- The invariant of the event loop: the counter is the number of unfinished bodies, the lock is
    held by the task that runs in a section, and no task is suspended at it. -/
structure Counted (s : EventLoop β ω) : Prop where
  count : s.mgr.inflight_http = s.unfinished
  held : s.state_lock = true ↔ ∃ x, s.running = some (.locked x)
  awake : ∀ p ∈ s.suspended, p.OffLock

theorem counted_init (ref : Option String) (w : ω) :
    Counted (EventLoop.init ref w : EventLoop β ω) :=
  ⟨by simp [EventLoop.init, Manager.new, EventLoop.unfinished], by simp [EventLoop.init],
    by simp [EventLoop.init]⟩

/-- A running task that goes on outside the lock with the same number of unfinished bodies. -/
theorem Counted.moves {s t : EventLoop β ω} (h : Counted s) (hm : t.mgr.inflight_http =
    s.mgr.inflight_http) (hu : t.unfinished = s.unfinished) (hl : t.state_lock = s.state_lock)
    (hfree : s.state_lock = false) (hr : ∀ x, t.running ≠ some (.locked x))
    (ha : ∀ p ∈ t.suspended, p.OffLock) : Counted t := by
  refine ⟨by rw [hm, hu, h.count], ?_, ha⟩
  rw [hl, hfree]
  exact ⟨nofun, fun ⟨x, hx⟩ => absurd hx (hr x)⟩

/-- The lock is free while no task runs in a section. -/
theorem Counted.free {s : EventLoop β ω} (h : Counted s) (hr : ∀ x, s.running ≠ some (.locked x)) :
    s.state_lock = false := by
  cases hl : s.state_lock with
  | false => rfl
  | true =>
    obtain ⟨x, hx⟩ := h.held.1 hl
    exact absurd hx (hr x)

/-- A suspended task that gets the thread back, its place in the sum taken by where it goes on. -/
theorem Counted.resumes {s : EventLoop β ω} {p : Pos β} {rest : Multiset (Pos β)} (h : Counted s)
    (hr : s.running = none) (hs : s.suspended = p ::ₘ rest) {q : Pos β} {m : Manager β} {w : ω}
    {r : Bool} (hm : m.inflight_http = s.mgr.inflight_http) (hq : ∀ x, q ≠ .locked x)
    (hu : q.unfinished = p.unfinished) : Counted
      { s with mgr := m, world := w, reload_lock := r, running := some q, suspended := rest } := by
  refine h.moves hm ?_ rfl (h.free fun x => by rw [hr]; nofun) (fun x hx => hq x ?_) fun p' hp' => ?_
  · simp [EventLoop.unfinished, hr, hs, hu]
  · exact Option.some.inj hx
  · exact h.awake p' (by rw [hs]; exact Multiset.mem_cons_of_mem hp')

/-- The running task goes on outside the lock. -/
theorem Counted.goes_on {s : EventLoop β ω} {p : Pos β} (h : Counted s) (hr : s.running = some p)
    (hp : ∀ x, p ≠ .locked x) {q : Pos β} {m : Manager β} {w : ω} {r : Bool}
    (hm : m.inflight_http = s.mgr.inflight_http) (hq : ∀ x, q ≠ .locked x)
    (hu : q.unfinished = p.unfinished) :
    Counted { s with mgr := m, world := w, reload_lock := r, running := some q } := by
  refine h.moves hm ?_ rfl (h.free fun x hx => hp x ?_) (fun x hx => hq x ?_) h.awake
  · simp [EventLoop.unfinished, hr, hu]
  · exact Option.some.inj (hr.symm.trans hx)
  · exact Option.some.inj hx

/-- The running task is suspended away from the lock. -/
theorem Counted.awaits {s : EventLoop β ω} {p : Pos β} (h : Counted s) (hr : s.running = some p)
    (hp : p.OffLock) :
    Counted { s with running := none, suspended := p ::ₘ s.suspended } := by
  refine h.moves rfl ?_ rfl (h.free fun x hx => ?_) (fun x => nofun) fun q hq => ?_
  · simp [EventLoop.unfinished, hr]
  · obtain rfl : p = .locked x := Option.some.inj (hr.symm.trans hx)
    exact hp
  · rcases Multiset.mem_cons.1 hq with rfl | hq
    · exact hp
    · exact h.awake q hq

/-- A new task starts while none runs. -/
theorem Counted.starts {s : EventLoop β ω} (h : Counted s) (hr : s.running = none) {x : Section β}
    {m : Manager β} {r : Bool} (hm : m.inflight_http = s.mgr.inflight_http)
    (hx : x.unfinished = 0) :
    Counted { s with mgr := m, reload_lock := r, running := some (.locking x) } := by
  refine h.moves hm ?_ rfl (h.free fun y => by rw [hr]; nofun) (fun y => nofun) h.awake
  simp [EventLoop.unfinished, hr, Pos.unfinished, hx]

/-- Away from the lock the unfinished bodies are those at an await of their own. -/
theorem sum_unfinished {ps : Multiset (Pos β)} (h : ∀ p ∈ ps, p.OffLock) :
    (ps.map Pos.unfinished).sum = ps.countP Pos.InBody := by
  induction ps using Multiset.induction with
  | empty => rfl
  | cons p ps ih =>
    have hoff := h p (Multiset.mem_cons_self _ _)
    rw [Multiset.map_cons, Multiset.sum_cons, ih fun q hq => h q (Multiset.mem_cons_of_mem hq)]
    cases p with
    | locking | locked => exact absurd hoff id
    | inside b =>
      rw [Multiset.countP_cons_of_pos _ trivial]
      exact Nat.add_comm 1 _
    | _ =>
      rw [Multiset.countP_cons_of_neg _ id]
      exact Nat.zero_add _

variable [DecidableEq β] {sv : Services β ω}

/-- Every step keeps the invariant. -/
theorem counted_step {s t : EventLoop β ω} {a : Turn} (h : Counted s) (hstep : Turns sv s a t) :
    Counted t := by
  cases hstep with
  | arrive hr => exact h.starts hr rfl rfl
  | start_failed build hr hi he =>
    obtain rfl := Manager.start_build_failed he
    exact ⟨h.count, h.held, h.awake⟩
  | start_built build hr hi he =>
    exact h.starts hr (Manager.start_build_built he).2.2 rfl
  | call_refused => exact h
  | call ref hr hl he => exact h.starts hr rfl rfl
  | @take x hr hl =>
    refine ⟨?_, ⟨fun _ => ⟨x, rfl⟩, fun _ => rfl⟩, h.awake⟩
    rw [h.count]
    simp [EventLoop.unfinished, hr, Pos.unfinished]
  | blocked hr hl =>
    -- the lock is held by a running task, and the running task waits for it
    obtain ⟨y, hy⟩ := h.held.1 hl
    cases hr.symm.trans hy
  | granted hr hs hl =>
    exact absurd (h.awake _ (by rw [hs]; exact Multiset.mem_cons_self _ _)) id
  | @leave_section x m next hr he =>
    have hcount := h.count
    rw [EventLoop.unfinished, hr, Option.elim_some, Pos.unfinished] at hcount
    have hrun := Section.run_unfinished he (by omega)
    refine ⟨?_, ?_, ?_⟩
    · rw [EventLoop.proceed_mgr, EventLoop.proceed_unfinished]
      dsimp only
      omega
    · rw [EventLoop.proceed_state_lock]
      refine ⟨nofun, fun ⟨y, hy⟩ => ?_⟩
      cases next with
      | runs q =>
        obtain rfl : q = .locked y := Option.some.inj hy
        exact absurd he Section.runs_unlocked
      | suspends q => cases hy
      | ends => cases hy
    · cases next with
      | suspends q =>
        intro p hp
        rcases Multiset.mem_cons.1 hp with rfl | hp
        · exact Section.suspends_off_lock he
        · exact h.awake p hp
      | _ => exact h.awake
  | @swap build rebuild c r hr he =>
    refine h.goes_on hr (fun x => nofun) ?_ (fun x => nofun) rfl
    obtain ⟨-, hn, -⟩ := swap_spec sv build rebuild c s.mgr s.world ∅
    rwa [he] at hn
  | body_awaits hr => exact h.awaits hr trivial
  | body_ends hr => exact h.goes_on hr (fun x => nofun) rfl (fun x => nofun) rfl
  | closing_awaits hr => exact h.awaits hr trivial
  | closed hr => exact h.goes_on hr (fun x => nofun) rfl (fun x => nofun) rfl
  | @resume p rest hr hs hp =>
    have hoff := h.awake p (by rw [hs]; exact Multiset.mem_cons_self _ _)
    refine h.resumes hr hs rfl (fun x hx => ?_) p.resumed_unfinished
    cases p with
    | locked y => exact hoff
    | locking y => exact hoff
    | _ => cases hx
  | timeout hr hs => exact h.resumes hr hs rfl (fun x => nofun) rfl
  | @cancel p rest hr hs =>
    have hoff := h.awake p (by rw [hs]; exact Multiset.mem_cons_self _ _)
    have hcancel := Pos.cancelled_unfinished hoff
    refine h.moves (by rw [EventLoop.proceed_mgr]) ?_ (EventLoop.proceed_state_lock _ _ _)
      (h.free fun x => by rw [hr]; nofun) (fun x => ?_) fun q hq => h.awake q ?_
    · rw [EventLoop.proceed_unfinished, hcancel]
      simp [EventLoop.unfinished, hr, hs]
    · cases p <;> first | exact hoff.elim | nofun
    · have hsame : ({ s with suspended := rest }.proceed p p.cancelled).suspended = rest := by
        cases p <;> rfl
      rw [hsame] at hq
      rw [hs]
      exact Multiset.mem_cons_of_mem hq
  | elsewhere handles w hr => exact ⟨h.count, h.held, h.awake⟩

/-- In every state the event loop reaches, the counter is the number of `acquire()` bodies that were
    entered and whose `acquire()` is not over; whenever the loop picks its next task these are the
    bodies at one of their own awaits, and no task waits for the lock at the exit. -/
theorem inflight_exact (sv : Services β ω) (ref : Option String) (w₀ : ω) {turns : List Turn}
    {s : EventLoop β ω} (hrun : Run (Turns sv) (EventLoop.init ref w₀) turns s) :
    s.mgr.inflight_http = s.unfinished ∧ (s.running = none →
      s.mgr.inflight_http = s.suspended.countP Pos.InBody ∧ .locking .uncount ∉ s.suspended) := by
  have h : Counted s := hrun.invariant (I := Counted) counted_step (counted_init ref w₀)
  refine ⟨h.count, fun hr => ⟨?_, fun hmem => h.awake _ hmem⟩⟩
  rw [h.count, EventLoop.unfinished, hr, Option.elim_none, Nat.zero_add, sum_unfinished h.awake]

end

/-! ### A run -/

/-- A loop that serves backend 0. -/
def served (n : ℤ) (state_lock : Bool) (running : Option (Pos ℕ)) (suspended : Multiset (Pos ℕ)) :
    EventLoop ℕ Unit :=
  ⟨⟨.ready, some 0, n, none, none, ∅⟩, (), state_lock, false, running, suspended⟩

/-- A started manager, a body that is cancelled at an await, and one that goes on. -/
def cut_off_turns : List Turn :=
  [.start, .take, .leave_section, .arrive, .take, .leave_section, .awaits, .arrive, .take,
    .leave_section, .awaits, .cancel, .take, .leave_section]

theorem cut_off_run : Run (Turns plain_services) (EventLoop.init none ()) cut_off_turns
    (served 1 false none {.inside 0}) := by
  have hstart : Run (Turns plain_services) (EventLoop.init none ()) [.start, .take, .leave_section]
      (served 0 false none 0) :=
    ((Run.single (.start_built _ (.built 0) rfl rfl rfl)).snoc (.take _ rfl rfl)).snoc
      (.leave_section ⟨⟨.init, some 0, 0, none, none, ∅⟩, (), true, false,
        some (.locked .started), 0⟩ rfl rfl)
  have henter : ∀ n ps, Run (Turns plain_services) (served n false none ps)
      [.arrive, .take, .leave_section, .awaits]
      (served (n + 1) false none (.inside 0 ::ₘ ps)) := fun n ps =>
    (((Run.single (.arrive _ rfl)).snoc (.take _ rfl rfl)).snoc
      (.leave_section (served n true (some (.locked .gate)) ps) rfl rfl)).snoc
      (.body_awaits (served (n + 1) false (some (.inside 0)) ps) rfl)
  have hcancel : Run (Turns plain_services) (served 2 false none (.inside 0 ::ₘ {.inside 0}))
      [.cancel, .take, .leave_section] (served 1 false none {.inside 0}) :=
    ((Run.single (.cancel (p := .inside 0) _ rfl rfl)).snoc
      (.take (served 2 false (some (.locking .uncount)) {.inside 0}) rfl rfl)).snoc
      (.leave_section (served 2 true (some (.locked .uncount)) {.inside 0}) rfl rfl)
  exact ((hstart.append (henter 0 0)).append (henter 1 _)).append hcancel

theorem inflight_exact_cut_off :
    (served 1 false none {.inside 0}).mgr.inflight_http =
      (served 1 false none {.inside 0}).unfinished ∧
    ((served 1 false none {.inside 0}).running = none →
      (served 1 false none {.inside 0}).mgr.inflight_http =
        (served 1 false none {.inside 0}).suspended.countP Pos.InBody ∧
      Pos.locking .uncount ∉ (served 1 false none {.inside 0}).suspended) :=
  inflight_exact plain_services none () cut_off_run

end LocalVoice.BackendManager
