import Mathlib.Data.Multiset.Basic
import Mathlib.Logic.Function.Basic
import LocalVoice.CapabilityResolver.Resolve
import LocalVoice.Lib.Run

/-! `server/core/coordinator.py`: the lock that the ASR and TTS slots share, and in exclusive mode
    the backend that is resident behind it. A slot that gets the lock unloads the backend of the
    other one and preloads its own before its body runs; both calls are synchronous, so a body
    starts either behind both or not at all.

        waiting ──(lock)──▶ evict the other ──▶ preload the own ──▶ body ──▶ lock released
                                 │ raises            │ raises
                                 └───────────────────┴──▶ lock released, no body -/

namespace LocalVoice.BackendCoordinator
open LocalVoice.Lib LocalVoice.CapabilityResolver

inductive Slot where | asr | tts
  deriving DecidableEq

def Slot.other : Slot → Slot
  | .asr => .tts
  | .tts => .asr

/-- Which of the attributes `acquire` looks for a backend object has. -/
structure Backend where
  unload : Bool
  preload : Bool
  is_ready : Bool

/-- A coordinator with its getters: whether one is registered, and what it returns. -/
structure Coordinator where
  mode : String
  backend_getters : Slot → Option (Option Backend)

/-- `(policy or {}).get("mode", "concurrent")`. -/
def requested (policy : Option Policy) : Json := (policy.bind (·.mode)).getD (.str "concurrent")

/-- `_resolve_mode`; the profile comes with what its resolution looks up. -/
def resolve_mode (policy : Option Policy)
    (profile : Option (Setup × Option ConcurrencyCapability)) : Except ValueError String :=
  if requested policy = .str "exclusive" then .ok "exclusive"
  else match profile with
    | none => .ok (requested policy).toStr
    | some (s, diar_cap) => (resolve { s with policy := policy } diar_cap).map (·.coordinator_mode)

def Coordinator.new (policy : Option Policy)
    (profile : Option (Setup × Option ConcurrencyCapability))
    (getters : Slot → Option (Option Backend)) : Except ValueError Coordinator :=
  (resolve_mode policy profile).map fun mode => ⟨mode, getters⟩

def Coordinator.has_lock (c : Coordinator) : Bool :=
  c.mode = "serialized" || c.mode = "exclusive"

/-- How a call of `unload()` or `preload()` ends; one that raises leaves any residency. -/
inductive Outcome where
  | returns
  | raises (resident : Bool)

/-- The residency after a call on the backend of `slot`, and whether the call returned. -/
def call (slot : Slot) (wanted : Bool) (resident : Slot → Bool) : Outcome → (Slot → Bool) × Bool
  | .returns => (Function.update resident slot wanted, true)
  | .raises now => (Function.update resident slot now, false)

/-- The eviction of the other slot's backend. -/
def Coordinator.evict (c : Coordinator) (slot : Slot) (active_slot : Option Slot)
    (resident : Slot → Bool) (unload : Outcome) : (Slot → Bool) × Bool :=
  match c.backend_getters slot.other with
  | some (some b) =>
    if b.unload ∧ (active_slot = some slot.other ∨ b.is_ready = false ∨ resident slot.other) then
      call slot.other false resident unload
    else (resident, true)
  | _ => (resident, true)

/-- The preload of the slot's own backend. -/
def Coordinator.restore (c : Coordinator) (slot : Slot) (resident : Slot → Bool)
    (preload : Outcome) : (Slot → Bool) × Bool :=
  match c.backend_getters slot with
  | some (some b) =>
    if b.preload ∧ b.is_ready ∧ resident slot = false then call slot true resident preload
    else (resident, true)
  | _ => (resident, true)

/-- What `acquire` does under the lock before it yields: the residency it leaves, and whether it
    gets to the body. -/
def Coordinator.prepare (c : Coordinator) (slot : Slot) (active_slot : Option Slot)
    (resident : Slot → Bool) (unload preload : Outcome) : (Slot → Bool) × Bool :=
  if c.mode = "exclusive" then
    match c.evict slot active_slot resident unload with
    | (resident', true) => c.restore slot resident' preload
    | failed => failed
  else (resident, true)

/-- The lock, `_active_slot`, what `is_ready()` of each backend says, the `acquire()` calls that
    wait for the lock and the bodies that run. -/
structure State where
  locked : Bool
  active_slot : Option Slot
  resident : Slot → Bool
  waiting : Multiset Slot
  bodies : Multiset Slot

/-- A fresh coordinator over backends that may have been preloaded. -/
def State.init (resident : Slot → Bool) : State := ⟨false, none, resident, 0, 0⟩

inductive Action where
  | request (slot : Slot)
  | enter (slot : Slot)
  | fail (slot : Slot)
  | leave (slot : Slot)
  | cancel (slot : Slot)
  deriving DecidableEq

/-- One step of a coordinator. `leave` is a body that returns, raises or is cancelled, `cancel` a
    wait for the lock that is given up. -/
inductive Step (c : Coordinator) : State → Action → State → Prop where
  | request (s : State) (slot : Slot) :
    Step c s (.request slot) { s with waiting := slot ::ₘ s.waiting }
  | enter_unlocked (s : State) {slot : Slot} {rest : Multiset Slot} (hlock : c.has_lock = false)
    (hw : s.waiting = slot ::ₘ rest) :
    Step c s (.enter slot) { s with waiting := rest, bodies := slot ::ₘ s.bodies }
  | enter (s : State) {slot : Slot} {rest : Multiset Slot} (unload preload : Outcome)
    {resident : Slot → Bool} (hlock : c.has_lock = true) (hfree : s.locked = false)
    (hw : s.waiting = slot ::ₘ rest)
    (h : c.prepare slot s.active_slot s.resident unload preload = (resident, true)) :
    Step c s (.enter slot) ⟨true, some slot, resident, rest, slot ::ₘ s.bodies⟩
  | fail (s : State) {slot : Slot} {rest : Multiset Slot} (unload preload : Outcome)
    {resident : Slot → Bool} (hlock : c.has_lock = true) (hfree : s.locked = false)
    (hw : s.waiting = slot ::ₘ rest)
    (h : c.prepare slot s.active_slot s.resident unload preload = (resident, false)) :
    Step c s (.fail slot) { s with resident := resident, waiting := rest }
  | leave (s : State) {slot : Slot} {rest : Multiset Slot} (hb : s.bodies = slot ::ₘ rest) :
    Step c s (.leave slot) { s with locked := false, bodies := rest }
  | cancel (s : State) {slot : Slot} {rest : Multiset Slot} (hw : s.waiting = slot ::ₘ rest) :
    Step c s (.cancel slot) { s with waiting := rest }

/-- Both getters are registered and return a backend with the three methods. -/
def Managed (getters : Slot → Option (Option Backend)) : Prop :=
  ∀ slot, getters slot = some (some ⟨true, true, true⟩)

/-! ### What one section does -/

theorem Slot.ne_other (slot : Slot) : slot ≠ slot.other := by cases slot <;> decide

/-- A coordinator whose policy says exclusive is exclusive, whatever the profile resolves to. -/
theorem Coordinator.new_exclusive {policy : Policy}
    {profile : Option (Setup × Option ConcurrencyCapability)}
    {getters : Slot → Option (Option Backend)} {c : Coordinator}
    (hpolicy : policy.mode = some (.str "exclusive"))
    (h : Coordinator.new (some policy) profile getters = .ok c) : c = ⟨"exclusive", getters⟩ := by
  have hreq : requested (some policy) = .str "exclusive" := by simp [requested, hpolicy]
  unfold Coordinator.new resolve_mode at h
  rw [if_pos hreq] at h
  exact (Except.ok.inj h).symm

section
variable {getters : Slot → Option (Option Backend)} {slot : Slot} {active : Option Slot}
  {resident resident' : Slot → Bool} {unload preload : Outcome}

/-- An eviction that returns leaves the other backend not resident. -/
theorem evict_spec (hg : Managed getters)
    (h : Coordinator.evict ⟨"exclusive", getters⟩ slot active resident unload = (resident', true)) :
    resident' slot.other = false := by
  simp only [Coordinator.evict, hg slot.other] at h
  split at h
  · cases unload with
    | returns =>
      obtain rfl := (Prod.mk.inj h).1
      exact Function.update_self ..
    | raises now => exact absurd (Prod.mk.inj h).2 (by decide)
  · rename_i hkeep
    obtain rfl := (Prod.mk.inj h).1
    by_contra hres
    exact hkeep ⟨trivial, Or.inr (Or.inr (by simpa using hres))⟩

/-- A preload that returns leaves the own backend resident and the other one as it was. -/
theorem restore_spec (hg : Managed getters)
    (h : Coordinator.restore ⟨"exclusive", getters⟩ slot resident preload = (resident', true)) :
    resident' slot = true ∧ resident' slot.other = resident slot.other := by
  simp only [Coordinator.restore, hg slot] at h
  split at h
  · cases preload with
    | returns =>
      obtain rfl := (Prod.mk.inj h).1
      exact ⟨Function.update_self .., Function.update_of_ne slot.ne_other.symm ..⟩
    | raises now => exact absurd (Prod.mk.inj h).2 (by decide)
  · rename_i hkeep
    obtain rfl := (Prod.mk.inj h).1
    refine ⟨?_, rfl⟩
    by_contra hres
    exact hkeep ⟨trivial, trivial, by simpa using hres⟩

/-- A body starts with its own backend resident and the other one evicted. -/
theorem prepare_spec (hg : Managed getters)
    (h : Coordinator.prepare ⟨"exclusive", getters⟩ slot active resident unload preload =
      (resident', true)) : resident' slot = true ∧ resident' slot.other = false := by
  rw [Coordinator.prepare, if_pos rfl] at h
  split at h
  · rename_i r he
    obtain ⟨hown, hother⟩ := restore_spec hg h
    exact ⟨hown, hother.trans (evict_spec hg he)⟩
  · rename_i hfailed
    exact absurd h (hfailed resident')

end

/-! ### Runs -/

/-- The invariant: a body runs only under the lock, alone, in front of its own backend. -/
structure Exclusive (s : State) : Prop where
  alone : s.bodies.card = if s.locked then 1 else 0
  resident : ∀ slot ∈ s.bodies, s.resident slot = true ∧ s.resident slot.other = false

theorem exclusive_step {getters : Slot → Option (Option Backend)} (hg : Managed getters)
    {s t : State} {a : Action} (h : Exclusive s)
    (hstep : Step ⟨"exclusive", getters⟩ s a t) : Exclusive t := by
  have hempty : s.locked = false → s.bodies = 0 := fun hfree =>
    Multiset.card_eq_zero.1 (by rw [h.alone, hfree]; rfl)
  cases hstep with
  | request => exact ⟨h.alone, h.resident⟩
  | enter_unlocked hlock => exact absurd (hlock : true = false) nofun
  | enter unload preload _ hfree _ hprep =>
    rw [hempty hfree]
    refine ⟨rfl, fun slot hslot => ?_⟩
    obtain rfl : slot = _ := by simpa using hslot
    exact prepare_spec hg hprep
  | fail unload preload _ hfree =>
    refine ⟨h.alone, fun slot hslot => ?_⟩
    rw [hempty hfree] at hslot
    exact absurd hslot (Multiset.notMem_zero slot)
  | @leave slot rest hb =>
    have hone := h.alone
    rw [hb, Multiset.card_cons] at hone
    obtain rfl : rest = 0 := by
      refine Multiset.card_eq_zero.1 ?_
      split at hone <;> omega
    exact ⟨rfl, fun slot hslot => absurd hslot (Multiset.notMem_zero slot)⟩
  | cancel => exact ⟨h.alone, h.resident⟩

/-- Over every policy-exclusive coordinator whose two backends can be unloaded, preloaded and asked
    if they are ready, from any initial residency and in every order of requests, failures and
    cancellations: at most one body runs, the backend of its slot is resident and the other one is
    not. -/
theorem exclusive_residency {policy : Policy}
    {profile : Option (Setup × Option ConcurrencyCapability)}
    {getters : Slot → Option (Option Backend)} {c : Coordinator} (resident₀ : Slot → Bool)
    {actions : List Action} {s : State} (hpolicy : policy.mode = some (.str "exclusive"))
    (hnew : Coordinator.new (some policy) profile getters = .ok c) (hg : Managed getters)
    (hrun : Run (Step c) (State.init resident₀) actions s) :
    s.bodies.card ≤ 1 ∧
      ∀ slot ∈ s.bodies, s.resident slot = true ∧ s.resident slot.other = false := by
  obtain rfl := Coordinator.new_exclusive hpolicy hnew
  have h : Exclusive s := hrun.invariant (I := Exclusive) (exclusive_step hg)
    ⟨rfl, fun slot hslot => absurd hslot (Multiset.notMem_zero slot)⟩
  refine ⟨?_, h.resident⟩
  rw [h.alone]
  split <;> decide

/-- Both backends preloaded at start-up; the TTS eviction by an ASR request raises, and the request
    that follows gets the device. -/
theorem exclusive_residency_retry :
    (Multiset.card ({.asr} : Multiset Slot)) ≤ 1 ∧ ∀ slot ∈ ({.asr} : Multiset Slot),
      Function.update (fun _ => true) Slot.tts false slot = true ∧
        Function.update (fun _ => true) Slot.tts false slot.other = false := by
  have hg : Managed fun _ => some (some ⟨true, true, true⟩) := fun _ => rfl
  have hfail : Run (Step ⟨"exclusive", fun _ => some (some ⟨true, true, true⟩)⟩)
      (State.init fun _ => true) [.request .asr, .fail .asr]
      ⟨false, none, Function.update (fun _ => true) .tts true, 0, 0⟩ :=
    (Run.single (.request _ .asr)).snoc (.fail _ (.raises true) .returns rfl rfl rfl rfl)
  have henter : Run (Step ⟨"exclusive", fun _ => some (some ⟨true, true, true⟩)⟩)
      ⟨false, none, fun _ => true, 0, 0⟩ [.request .asr, .enter .asr]
      ⟨true, some .asr, Function.update (fun _ => true) .tts false, 0, {.asr}⟩ :=
    (Run.single (.request _ .asr)).snoc (.enter _ .returns .returns rfl rfl rfl rfl)
  have hsame : Function.update (fun _ => true) Slot.tts true = fun _ => true :=
    Function.update_eq_self ..
  rw [hsame] at hfail
  have hnew : Coordinator.new (some ⟨some (.str "exclusive"), .null⟩) none
      (fun _ => some (some ⟨true, true, true⟩)) =
      .ok ⟨"exclusive", fun _ => some (some ⟨true, true, true⟩)⟩ := rfl
  exact exclusive_residency (fun _ => true) rfl hnew hg (hfail.append henter)

end LocalVoice.BackendCoordinator
