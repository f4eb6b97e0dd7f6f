import LocalVoice.Lib.Run
import Mathlib.Data.Finset.Basic
import Mathlib.Data.Int.Notation
import Mathlib.Data.Multiset.Basic

/-! The code of `server/core/backend_manager.py` between two awaits, one function for each such
    section. What happens at the awaits is the step relation further down.

        INIT ──start──▶ READY ──reload──▶ DRAINING ──drained──▶ RELOADING ──▶ READY
                          ▲                  │ timeout             │ rollback ──▶ READY
                          └──────────────────┘                     └ it fails ──▶ FAILED -/

namespace LocalVoice.BackendManager

inductive BackendState where | init | ready | draining | reloading | failed
  deriving DecidableEq

/-- The fields of a `BackendManager` for backend objects `β`; `ws_handles` are named by numbers. -/
structure Manager (β : Type) where
  state : BackendState
  current : Option β
  inflight_http : ℤ
  last_profile_ref : Option String
  initial_profile_ref : Option String
  ws_handles : Finset ℕ

/-- A manager as the constructor leaves it. -/
def Manager.new (β : Type) (initial_profile_ref : Option String) : Manager β :=
  ⟨.init, none, 0, none, initial_profile_ref, ∅⟩

/-- Why `reload` raises an `HTTPException` other than the last one, `reload_and_rollback_failed`. -/
inductive Refusal where
  | reload_in_progress
  | backend_not_ready (state : BackendState)
  | hot_reload_not_supported
  | invalid_profile
  | profile_artifacts_missing
  | backend_drain_timeout
  deriving DecidableEq

def Refusal.status_code : Refusal → ℕ
  | .reload_in_progress => 409
  | .backend_not_ready _ => 409
  | .hot_reload_not_supported => 400
  | .invalid_profile => 400
  | .profile_artifacts_missing => 400
  | .backend_drain_timeout => 409

/-- What the manager calls outside itself, over the state `ω` of the profile loader: the flag of a
    backend, the name in `current_profile()`, the check of a new profile before the drain, and
    `apply_profile(ref, resolve_engines=True, kind=self.name)`, which may raise (`true`). -/
structure Services (β ω : Type) where
  supports_hot_reload : β → Bool
  current_name : ω → Option String
  preview : String → ω → Option Refusal
  apply_profile : String → ω → ω × Bool

/-- What `factory()` and `preloader()` do in one attempt: one of them raises, or the object is
    ready for use. The factory may return any object, also one it returned before. -/
inductive Build (β : Type) where
  | factory_raises
  | preloader_raises (b : β)
  | built (b : β)

/-- The calls that decide whether an object is loaded: `unloader(b)`, whether or not it raises, and
    a `preloader(b)` that returns. -/
inductive Call (β : Type) where
  | unload (b : β)
  | preload (b : β)
  deriving DecidableEq

/-- The objects that are preloaded and not unloaded since. -/
def warm_after {β : Type} [DecidableEq β] (warm : Finset β) : List (Call β) → Finset β
  | [] => warm
  | .unload b :: rest => warm_after (warm.erase b) rest
  | .preload b :: rest => warm_after (insert b warm) rest

section
variable {β ω : Type}

/-! ### start and acquire -/

/-- `start` up to its lock: the state if it is refused or fails, the built object otherwise. -/
def Manager.start_build (m : Manager β) (build : Build β) : Manager β × Option β :=
  match build with
  | .built b =>
    ({ m with
      current := some b
      last_profile_ref := m.last_profile_ref.or m.initial_profile_ref }, some b)
  | _ => ({ m with state := .failed }, none)

/-- The locked section at the entry of `acquire`; `none` is the 503. -/
def Manager.enter (m : Manager β) : Option (β × Manager β) :=
  match m.state, m.current with
  | .ready, some b => some (b, { m with inflight_http := m.inflight_http + 1 })
  | _, _ => none

/-- The locked section at the exit of `acquire`. -/
def Manager.leave (m : Manager β) : Manager β :=
  let n := m.inflight_http - 1
  { m with inflight_http := if n ≤ 0 then max 0 n else n }

/-! ### reload -/

/-- What `reload` keeps in local variables once its checks have passed. -/
structure ReloadCall (β : Type) where
  profile_ref : Option String
  old_backend : β
  old_profile_ref : Option String

/-- Steps 1 to 3 of `reload`: the checks and the snapshot of the old state. -/
def Manager.check_reload (sv : Services β ω) (profile_ref : Option String) (m : Manager β) (w : ω) :
    Except Refusal (ReloadCall β) :=
  match m.state, m.current with
  | .ready, some b =>
    if sv.supports_hot_reload b = false then .error .hot_reload_not_supported
    else
      match profile_ref.bind (sv.preview · w) with
      | some r => .error r
      | none => .ok
        { profile_ref := profile_ref
          old_backend := b
          old_profile_ref := (m.last_profile_ref.filter (· ≠ "")).or (sv.current_name w) }
  | st, _ => .error (.backend_not_ready st)

/-- How the swap ended; `failed` raises `reload_and_rollback_failed`. -/
inductive Swapped where | reloaded | rolled_back | failed
  deriving DecidableEq

/-- The state that is set once the swap is over. -/
def Swapped.state : Swapped → BackendState
  | .failed => .failed
  | _ => .ready

/-- What a swap leaves: the manager, the profile loader, the outcome and the calls it made. -/
structure SwapResult (β ω : Type) where
  mgr : Manager β
  world : ω
  outcome : Swapped
  calls : List (Call β)

/-- `apply_profile` for a reference, if there is one. -/
def apply_ref (sv : Services β ω) (ref : Option String) (w : ω) : ω × Bool :=
  match ref with
  | some r => sv.apply_profile r w
  | none => (w, false)

/-- The reference the rollback applies: none when the reload had no profile. -/
def ReloadCall.rollback_ref (c : ReloadCall β) : Option String :=
  c.profile_ref.bind fun _ => c.old_profile_ref

/-- The `except` branch of `reload`, after `calls`: back to the old profile and a fresh object. -/
def rollback (sv : Services β ω) (rebuild : Build β) (c : ReloadCall β) (m : Manager β) (w : ω)
    (calls : List (Call β)) : SwapResult β ω :=
  match apply_ref sv c.rollback_ref w, rebuild with
  | (w', false), .built b => ⟨{ m with current := some b }, w', .rolled_back, calls ++ [.preload b]⟩
  | (w', _), _ => ⟨{ m with current := none }, w', .failed, calls⟩

/-- Step 5 of `reload`, from RELOADING on: unload, apply, build, or roll back. -/
def swap (sv : Services β ω) (build rebuild : Build β) (c : ReloadCall β) (m : Manager β) (w : ω) :
    SwapResult β ω :=
  let m := { m with state := .reloading, current := none }
  let calls := [.unload c.old_backend]
  match apply_ref sv c.profile_ref w, build with
  | (w', true), _ => rollback sv rebuild c m w' calls
  | (w', false), .factory_raises => rollback sv rebuild c m w' calls
  | (w', false), .preloader_raises b => rollback sv rebuild c m w' (calls ++ [.unload b])
  | (w', false), .built b =>
    ⟨{ m with current := some b, last_profile_ref := c.profile_ref.or m.last_profile_ref }, w',
      .reloaded, calls ++ [.preload b]⟩

/-! ### What the sections leave alone -/

theorem Manager.enter_eq {m m' : Manager β} {b : β} (h : m.enter = some (b, m')) :
    m.state = .ready ∧ m.current = some b ∧
      m' = { m with inflight_http := m.inflight_http + 1 } := by
  unfold Manager.enter at h
  split at h
  · rename_i b' hs hc
    cases h
    exact ⟨hs, hc, rfl⟩
  · cases h

theorem Manager.start_build_failed {m m' : Manager β} {build : Build β}
    (h : m.start_build build = (m', none)) : m' = { m with state := .failed } := by
  unfold Manager.start_build at h
  split at h
  · cases h
  · exact (Prod.mk.inj h).1.symm

theorem Manager.start_build_built {m m' : Manager β} {build : Build β} {b : β}
    (h : m.start_build build = (m', some b)) :
    m'.state = m.state ∧ m'.current = some b ∧ m'.inflight_http = m.inflight_http := by
  unfold Manager.start_build at h
  split at h
  · obtain ⟨rfl, hb⟩ := Prod.mk.inj h
    exact ⟨rfl, hb, rfl⟩
  · cases h

/-- While the counter covers the leaving body, the floor is not reached. -/
theorem Manager.leave_eq {m : Manager β} (h : 1 ≤ m.inflight_http) :
    m.leave = { m with inflight_http := m.inflight_http - 1 } := by
  have hfloor : (if m.inflight_http - 1 ≤ 0 then max 0 (m.inflight_http - 1)
      else m.inflight_http - 1) = m.inflight_http - 1 := by
    split <;> omega
  simp only [Manager.leave, hfloor]

theorem Manager.check_reload_ok {sv : Services β ω} {ref : Option String} {m : Manager β} {w : ω}
    {c : ReloadCall β} (h : m.check_reload sv ref w = .ok c) :
    m.state = .ready ∧ m.current = some c.old_backend ∧ c.profile_ref = ref ∧
      c.old_profile_ref = (m.last_profile_ref.filter (· ≠ "")).or (sv.current_name w) := by
  unfold Manager.check_reload at h
  split at h
  · rename_i b hs hc
    split at h
    · cases h
    · split at h
      · cases h
      · cases h
        exact ⟨hs, hc, rfl, rfl⟩
  · cases h

variable [DecidableEq β]

/-- An object whose preload was the last call is loaded. -/
theorem mem_warm_after_preload (b : β) : ∀ (calls : List (Call β)) (warm : Finset β),
    b ∈ warm_after warm (calls ++ [.preload b])
  | [], _ => Finset.mem_insert_self _ _
  | .unload _ :: rest, _ => mem_warm_after_preload b rest _
  | .preload _ :: rest, _ => mem_warm_after_preload b rest _

/-- A rollback ends in a loaded object or fails. -/
theorem rollback_spec (sv : Services β ω) (rebuild : Build β) (c : ReloadCall β) (m : Manager β)
    (w : ω) (calls : List (Call β)) (warm : Finset β) :
    let r := rollback sv rebuild c m w calls
    r.mgr.state = m.state ∧ r.mgr.inflight_http = m.inflight_http ∧
      (r.outcome ≠ .failed → r.outcome = .rolled_back ∧
        r.mgr.last_profile_ref = m.last_profile_ref ∧ r.world = (apply_ref sv c.rollback_ref w).1 ∧
        (apply_ref sv c.rollback_ref w).2 = false ∧
        ∃ b, r.mgr.current = some b ∧ b ∈ warm_after warm r.calls) := by
  dsimp only
  unfold rollback
  split
  · rename_i w' b h
    exact ⟨rfl, rfl, fun _ => ⟨rfl, rfl, by rw [h], by rw [h], b, rfl,
      mem_warm_after_preload b calls warm⟩⟩
  · exact ⟨rfl, rfl, fun h => absurd rfl h⟩

/-- A swap stays RELOADING and ends in a loaded object, unless it fails. -/
theorem swap_spec (sv : Services β ω) (build rebuild : Build β) (c : ReloadCall β) (m : Manager β)
    (w : ω) (warm : Finset β) :
    let r := swap sv build rebuild c m w
    r.mgr.state = .reloading ∧ r.mgr.inflight_http = m.inflight_http ∧ (r.outcome ≠ .failed →
        ∃ b, r.mgr.current = some b ∧ b ∈ warm_after warm r.calls) := by
  dsimp only
  unfold swap
  dsimp only
  have hback := fun w' calls => rollback_spec sv rebuild c
    { m with state := .reloading, current := none } w' calls warm
  split
  · exact ⟨(hback _ _).1, (hback _ _).2.1, fun h => ((hback _ _).2.2 h).2.2.2.2⟩
  · exact ⟨(hback _ _).1, (hback _ _).2.1, fun h => ((hback _ _).2.2 h).2.2.2.2⟩
  · exact ⟨(hback _ _).1, (hback _ _).2.1, fun h => ((hback _ _).2.2 h).2.2.2.2⟩
  · rename_i b _
    exact ⟨rfl, rfl, fun _ => ⟨b, rfl, mem_warm_after_preload b [.unload c.old_backend] warm⟩⟩

/-- A rolled-back swap keeps the manager's reference and has applied the rollback reference, on top
    of what the new profile left. -/
theorem swap_rolled_back {sv : Services β ω} {build rebuild : Build β} {c : ReloadCall β}
    {m : Manager β} {w : ω} (h : (swap sv build rebuild c m w).outcome = .rolled_back) :
    (swap sv build rebuild c m w).mgr.last_profile_ref = m.last_profile_ref ∧
      (swap sv build rebuild c m w).world =
        (apply_ref sv c.rollback_ref (apply_ref sv c.profile_ref w).1).1 ∧
      (apply_ref sv c.rollback_ref (apply_ref sv c.profile_ref w).1).2 = false := by
  unfold swap at h ⊢
  dsimp only at h ⊢
  have hback := fun w' calls => rollback_spec sv rebuild c
    { m with state := .reloading, current := none } w' calls ∅
  split at h
  · rename_i w' hw
    rw [hw]
    have hne := (hback w' [.unload c.old_backend]).2.2 (by rw [h]; decide)
    exact ⟨hne.2.1, hne.2.2.1, hne.2.2.2.1⟩
  · rename_i w' hw
    rw [hw]
    have hne := (hback w' [.unload c.old_backend]).2.2 (by rw [h]; decide)
    exact ⟨hne.2.1, hne.2.2.1, hne.2.2.2.1⟩
  · rename_i w' b hw
    rw [hw]
    have hne := (hback w' ([.unload c.old_backend] ++ [.unload b])).2.2 (by rw [h]; decide)
    exact ⟨hne.2.1, hne.2.2.1, hne.2.2.2.1⟩
  · cases h

end

/-! One manager with its tasks: any number of `acquire()` and `reload()` calls, and the one
    `start()` of the application. Each step is a section between two awaits, so a run is an
    interleaving of them; a task may be cancelled at each await. Entering `async with` a lock counts
    as an await everywhere. The reload lock is held exactly while a reload is `active`; the state
    lock is free between steps, since no section suspends inside it.

        acquire:  waiting ──enter──▶ inside b ──finish──▶ leaving ──leave──▶
        reload:   called ──begin──▶ entered ──▶ closing ──▶ checking ──▶ drained ──swap──▶ swapped
                                                               └▶ waiting ─┤
                                                                           └▶ timed_out -/

open LocalVoice.Lib

/-- An `acquire()` call that is not over: waiting for the state lock at its entry, its body running
    with the object it received, or waiting for the lock at its exit. -/
inductive Request (β : Type) where
  | waiting
  | inside (b : β)
  | leaving

/-- Where the reload that holds the reload lock stands; each is an await. -/
inductive Stage (β : Type) where
  | entered (c : ReloadCall β)
  | closing (c : ReloadCall β) (pending : Finset ℕ)
  | checking (c : ReloadCall β)
  | waiting (c : ReloadCall β)
  | timed_out (c : ReloadCall β)
  | drained (c : ReloadCall β)
  | swapped (r : Swapped)

/-- The `start()` call: not made yet, waiting for the state lock with a built object, over. -/
inductive Boot where | pending | publishing | over
  deriving DecidableEq

/-- A manager with its tasks. `warm` is not in the code: the objects preloaded and not unloaded
    since. -/
structure Config (β : Type) where
  mgr : Manager β
  requests : Multiset (Request β)
  called : Multiset (Option String)
  active : Option (Stage β)
  boot : Boot
  warm : Finset β

/-- Before `start()`. -/
def Config.init (β : Type) (initial_profile_ref : Option String) : Config β :=
  ⟨.new β initial_profile_ref, 0, 0, none, .pending, ∅⟩

/-- What happens in a step. -/
inductive Action (β : Type) where
  | arrive
  | enter
  | refuse_request
  | finish
  | leave
  | cancel_request
  | register_ws (h : ℕ)
  | unregister_ws (h : ℕ)
  | start (build : Build β)
  | started
  | cancel_start
  | call (ref : Option String)
  | refuse_locked
  | cancel_call
  | begin
  | refuse (r : Refusal)
  | set_draining
  | close_ws (h : ℕ)
  | closed
  | check_drain
  | drain_done
  | drain_timeout
  | publish_timeout
  | swap (build rebuild : Build β) (r : Swapped) (calls : List (Call β))
  | publish
  | cancel_reload
  | elsewhere

/-- The objects a step calls the unloader on. -/
def Action.unloads {β : Type} : Action β → List (Call β)
  | .swap _ _ _ calls => calls
  | _ => []

/-- The steps that end a `reload()` call: it is refused, raises, returns or is cancelled. -/
def Action.ends_reload {β : Type} : Action β → Bool
  | .refuse_locked | .cancel_call | .refuse _ | .publish_timeout | .publish | .cancel_reload => true
  | _ => false

section
variable {β ω : Type} [DecidableEq β]

/-- One step of a manager over the state of the profile loader. -/
inductive Step (sv : Services β ω) : Config β × ω → Action β → Config β × ω → Prop where
  /- `acquire()` -/
  | arrive (s : Config β) (w : ω) :
    Step sv (s, w) .arrive ({ s with requests := .waiting ::ₘ s.requests }, w)
  | enter (s : Config β) (w : ω) {rest : Multiset (Request β)} {b : β} {m : Manager β}
    (hr : s.requests = .waiting ::ₘ rest) (h : s.mgr.enter = some (b, m)) :
    Step sv (s, w) .enter ({ s with mgr := m, requests := .inside b ::ₘ rest }, w)
  | refuse_request (s : Config β) (w : ω) {rest : Multiset (Request β)}
    (hr : s.requests = .waiting ::ₘ rest) (h : s.mgr.enter = none) :
    Step sv (s, w) .refuse_request ({ s with requests := rest }, w)
  | finish (s : Config β) (w : ω) {rest : Multiset (Request β)} {b : β}
    (hr : s.requests = .inside b ::ₘ rest) :
    Step sv (s, w) .finish ({ s with requests := .leaving ::ₘ rest }, w)
  | leave (s : Config β) (w : ω) {rest : Multiset (Request β)} (hr : s.requests = .leaving ::ₘ rest) :
    Step sv (s, w) .leave ({ s with mgr := s.mgr.leave, requests := rest }, w)
  -- a cancelled wait for the lock; a cancelled body is one that finishes
  | cancel_waiting (s : Config β) (w : ω) {rest : Multiset (Request β)}
    (hr : s.requests = .waiting ::ₘ rest) :
    Step sv (s, w) .cancel_request ({ s with requests := rest }, w)
  | cancel_leaving (s : Config β) (w : ω) {rest : Multiset (Request β)}
    (hr : s.requests = .leaving ::ₘ rest) :
    Step sv (s, w) .cancel_request ({ s with requests := rest }, w)
  | register_ws (s : Config β) (w : ω) (h : ℕ) : Step sv (s, w) (.register_ws h)
      ({ s with mgr := { s.mgr with ws_handles := insert h s.mgr.ws_handles } }, w)
  | unregister_ws (s : Config β) (w : ω) (h : ℕ) : Step sv (s, w) (.unregister_ws h)
      ({ s with mgr := { s.mgr with ws_handles := s.mgr.ws_handles.erase h } }, w)
  /- `start()` -/
  | start_failed (s : Config β) (w : ω) (build : Build β) {m : Manager β} (hb : s.boot = .pending)
    (h : s.mgr.start_build build = (m, none)) :
    Step sv (s, w) (.start build) ({ s with mgr := m, boot := .over }, w)
  | start_built (s : Config β) (w : ω) (build : Build β) {m : Manager β} {b : β}
    (hb : s.boot = .pending) (h : s.mgr.start_build build = (m, some b)) :
    Step sv (s, w) (.start build)
      ({ s with mgr := m, boot := .publishing, warm := insert b s.warm }, w)
  | started (s : Config β) (w : ω) (hb : s.boot = .publishing) :
    Step sv (s, w) .started ({ s with mgr := { s.mgr with state := .ready }, boot := .over }, w)
  | cancel_start (s : Config β) (w : ω) (hb : s.boot = .publishing) :
    Step sv (s, w) .cancel_start ({ s with boot := .over }, w)
  /- `reload()` up to its snapshot -/
  | refuse_locked (s : Config β) (w : ω) (ha : s.active.isSome) : Step sv (s, w) .refuse_locked (s, w)
  | call (s : Config β) (w : ω) (ref : Option String) (ha : s.active = none) :
    Step sv (s, w) (.call ref) ({ s with called := ref ::ₘ s.called }, w)
  | cancel_call (s : Config β) (w : ω) {ref : Option String} {rest : Multiset (Option String)}
    (hc : s.called = ref ::ₘ rest) : Step sv (s, w) .cancel_call ({ s with called := rest }, w)
  | refuse (s : Config β) (w : ω) {ref : Option String} {rest : Multiset (Option String)}
    {r : Refusal} (hc : s.called = ref ::ₘ rest) (ha : s.active = none)
    (h : s.mgr.check_reload sv ref w = .error r) :
    Step sv (s, w) (.refuse r) ({ s with called := rest }, w)
  | begin (s : Config β) (w : ω) {ref : Option String} {rest : Multiset (Option String)}
    {c : ReloadCall β} (hc : s.called = ref ::ₘ rest) (ha : s.active = none)
    (h : s.mgr.check_reload sv ref w = .ok c) :
    Step sv (s, w) .begin ({ s with called := rest, active := some (.entered c) }, w)
  /- the drain -/
  | set_draining (s : Config β) (w : ω) {c : ReloadCall β} (ha : s.active = some (.entered c)) :
    Step sv (s, w) .set_draining ({ s with
      mgr := { s.mgr with state := .draining }
      active := some (.closing c s.mgr.ws_handles) }, w)
  | close_ws (s : Config β) (w : ω) {c : ReloadCall β} {pending : Finset ℕ} (h : ℕ)
    (ha : s.active = some (.closing c pending)) (hp : h ∈ pending) :
    Step sv (s, w) (.close_ws h) ({ s with active := some (.closing c (pending.erase h)) }, w)
  | closed (s : Config β) (w : ω) {c : ReloadCall β} (ha : s.active = some (.closing c ∅)) :
    Step sv (s, w) .closed ({ s with active := some (.checking c) }, w)
  | check_drained (s : Config β) (w : ω) {c : ReloadCall β} (ha : s.active = some (.checking c))
    (h : s.mgr.inflight_http = 0) :
    Step sv (s, w) .check_drain ({ s with active := some (.drained c) }, w)
  | check_waits (s : Config β) (w : ω) {c : ReloadCall β} (ha : s.active = some (.checking c))
    (h : s.mgr.inflight_http ≠ 0) :
    Step sv (s, w) .check_drain ({ s with active := some (.waiting c) }, w)
  | drain_done (s : Config β) (w : ω) {c : ReloadCall β} (ha : s.active = some (.waiting c))
    (h : s.mgr.inflight_http ≤ 0) :
    Step sv (s, w) .drain_done ({ s with active := some (.drained c) }, w)
  | drain_timeout (s : Config β) (w : ω) {c : ReloadCall β} (ha : s.active = some (.waiting c)) :
    Step sv (s, w) .drain_timeout ({ s with active := some (.timed_out c) }, w)
  | publish_timeout (s : Config β) (w : ω) {c : ReloadCall β}
    (ha : s.active = some (.timed_out c)) : Step sv (s, w) .publish_timeout
      ({ s with mgr := { s.mgr with state := .ready }, active := none }, w)
  /- the swap, which sets RELOADING and has no await until its outcome is published -/
  | swap (s : Config β) (w : ω) (build rebuild : Build β) {c : ReloadCall β} {r : SwapResult β ω}
    (ha : s.active = some (.drained c)) (h : swap sv build rebuild c s.mgr w = r) :
    Step sv (s, w) (.swap build rebuild r.outcome r.calls) ({ s with
      mgr := r.mgr
      active := some (.swapped r.outcome)
      warm := warm_after s.warm r.calls }, r.world)
  | publish (s : Config β) (w : ω) {r : Swapped} (ha : s.active = some (.swapped r)) :
    Step sv (s, w) .publish ({ s with mgr := { s.mgr with state := r.state }, active := none }, w)
  /- the reload task is cancelled at one of its awaits, and lets go of the reload lock -/
  | cancel_reload (s : Config β) (w : ω) (ha : s.active.isSome) :
    Step sv (s, w) .cancel_reload ({ s with active := none }, w)
  /- the rest of the process changes the loader's state -/
  | elsewhere (s : Config β) (w w' : ω) : Step sv (s, w) .elsewhere (s, w')

end

end LocalVoice.BackendManager
