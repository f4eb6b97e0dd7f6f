import Mathlib.Data.Nat.Notation
import Mathlib.Logic.Function.Basic
import LocalVoice.Lib.Run
import LocalVoice.Lib.Tasks

/-! `RebotArmActuator` of `agent/ovs_agent/apps/voice_rebot_arm/rebot_actuator.py` over the wrappers of
    `rebot_arm.py`, with any number of threads in `connect`, `disconnect`, `set_torque` and
    `execute_sequence`. A step is a section under `_lock`, or what lies between two of them; each call
    of the SDK may raise.

        connect: waiting ▶ checking ▶ resolving ▶ unpublishing ▶ burying ▶ building ▶ opening
                                                                                        │
                 ended ◀ priming ◀ (published) ◀ publishing ◀ gripping ◀────────────────┤
                   ▲                                  └──▶ handing_back ◀───────────────┘
                   └────────────────────────────────────────────┘
        disconnect: called ▶ taken ▶ returning ▶ ended -/

namespace LocalVoice.RebotArm

/-! ### Wrappers -/

/-- A `RebotArm`. `enabled`: its motors were enabled; `controller`: its `ArmEndPos` runs; `down`: the
    actuator has called its `disconnect()`. `gen` is the generation that the `connect()` saw which built
    it, and `misused` says that it was driven when it was down; the code holds neither. -/
structure Wrapper where
  gen : ℕ
  enabled : Bool
  controller : Bool
  connected : Bool
  down : Bool
  misused : Bool
  deriving DecidableEq

/-- How a call of the SDK ends: well, or it raises when the arm connects, when the motors are enabled,
    when the controller starts, or elsewhere. -/
inductive Sdk where
  | ok
  | connect_raises
  | enable_raises
  | start_raises
  | raises
  deriving DecidableEq

namespace Wrapper
variable (x : Wrapper)

def init (gen : ℕ) : Wrapper := ⟨gen, false, false, false, false, false⟩

/-- `RebotArm.connect`. -/
def connect : Sdk → Wrapper
  | .ok => { x with enabled := true, controller := true, connected := true }
  | .start_raises => { x with enabled := true }
  | _ => x

/-- `RebotArm.disconnect`. -/
def disconnect : Wrapper := { x with controller := false, connected := false, down := true }

/-- A move, a gripper command or a change of the torque begins. -/
def driven : Wrapper := { x with misused := x.misused || x.down }

/-- `RebotArm.set_torque`, and the low-level call after it when it raises: `low` is how that ends. -/
def set_torque (enable : Bool) (o low : Sdk) : Wrapper :=
  if x.connected then
    if enable then
      match o with
      | .ok => { x with enabled := true, controller := true }
      | .start_raises => { x with enabled := true, controller := false }
      | _ => { x with enabled := x.enabled || low = .ok }
    else { x with controller := false }
  else if enable then { x with enabled := x.enabled || low = .ok } else x

end Wrapper

/-! ### What the threads share -/

structure Shared where
  robot : Option ℕ
  torque_on : Bool
  generation : ℕ
  connect_lock : Bool
  built : ℕ
  wrapper : ℕ → Wrapper

namespace Shared
variable (c : Shared)

def init : Shared := ⟨none, false, 0, false, 0, fun _ => .init 0⟩

def modify (w : ℕ) (f : Wrapper → Wrapper) : Shared :=
  { c with wrapper := Function.update c.wrapper w (f (c.wrapper w)) }

def unlock : Shared := { c with connect_lock := false }

/-- `disconnect()` on a wrapper that was taken, if there was one. -/
def bury : Option ℕ → Shared
  | none => c
  | some w => c.modify w .disconnect

/-- The section of `set_torque`. -/
def set_torque (enable : Bool) (o low : Sdk) : Shared :=
  match c.robot with
  | none => { c with torque_on := enable }
  | some w => { c.modify w fun x => x.driven.set_torque enable o low with torque_on := enable }

end Shared

/-! ### Threads -/

inductive Connect where
  | waiting
  | checking
  | resolving
  | unpublishing
  | burying (stale : Option ℕ)
  | building
  | opening (w : ℕ)
  | gripping (w : ℕ)
  | publishing (w : ℕ)
  | handing_back (w : ℕ)
  | priming (w : ℕ)
  | ended (raised : Bool) (built : Option ℕ)
  deriving DecidableEq

/-- `generation` is what the call has made of the counter. -/
inductive Disconnect where
  | called
  | taken (robot : Option ℕ) (generation : ℕ)
  | returning (generation : ℕ)
  | ended (generation : ℕ)
  deriving DecidableEq

inductive SetTorque where
  | called
  | locked
  | ended
  deriving DecidableEq

/-- A frame moves the arm, commands the gripper, or both. -/
structure Frame where
  pose : Bool
  gripper : Bool
  deriving DecidableEq

inductive Sequence where
  | called (frames : List Frame)
  | next (frames : List Frame)
  | moving (frame : Frame) (frames : List Frame)
  | gripping (frame : Frame) (frames : List Frame)
  | reading
  | ended
  deriving DecidableEq

section
variable (c : Shared)

/-- `connect`, called at the generation `gen`. -/
def Connect.step (gen : ℕ) : Connect → Sdk → Option (Shared × Connect)
  | .waiting, _ => if c.connect_lock then none else some ({ c with connect_lock := true }, .checking)
  | .checking, _ =>
    if c.generation = gen then some (c, .resolving) else some (c.unlock, .ended true none)
  | .resolving, o => if o = .ok then some (c, .unpublishing) else some (c.unlock, .ended true none)
  | .unpublishing, _ => some ({ c with robot := none, torque_on := false }, .burying c.robot)
  | .burying stale, _ => some (c.bury stale, .building)
  | .building, o =>
    if o = .ok then
      some ({ c.modify c.built fun _ => .init gen with built := c.built + 1 }, .opening c.built)
    else some (c.unlock, .ended true none)
  | .opening w, o =>
    some (c.modify w fun x => x.connect o, if o = .ok then .gripping w else .handing_back w)
  -- an error of `init_gripper` is remembered
  | .gripping w, _ => some (c.modify w .driven, .publishing w)
  | .publishing w, _ =>
    if c.generation = gen then some ({ c with robot := some w, torque_on := true }, .priming w)
    else some (c, .handing_back w)
  | .handing_back w, _ => some ((c.bury (some w)).unlock, .ended true (some w))
  | .priming w, _ => some (c.unlock, .ended false (some w))
  | .ended .., _ => none

def Disconnect.step : Disconnect → Option (Shared × Disconnect)
  | .called => some ({ c with robot := none, torque_on := false, generation := c.generation + 1 },
      .taken c.robot (c.generation + 1))
  | .taken robot generation => some (c.bury robot, .returning generation)
  | .returning generation => some (c, .ended generation)
  | .ended _ => none

def SetTorque.step (enable : Bool) : SetTorque → Sdk → Sdk → Option (Shared × SetTorque)
  | .called, _, _ => some (c, if c.robot = none then .ended else .locked)
  | .locked, o, low => some (c.set_torque enable o low, .ended)
  | .ended, _, _ => none

/-- One operation on the bus: the wrapper is read again under the lock. -/
def Sequence.operate (o : Sdk) (rest : Sequence) : Shared × Sequence :=
  match c.robot with
  | none => (c, .reading)
  | some w => (c.modify w .driven, if o = .ok then rest else .reading)

/-- `execute_sequence`; before a frame, `raises` is a cancellation. -/
def Sequence.step : Sequence → Sdk → Option (Shared × Sequence)
  | .called frames, _ => some (c,
      if c.robot = none ∨ frames = [] ∨ c.torque_on = false then .ended else .next frames)
  | .next [], _ => some (c, .reading)
  | .next (frame :: frames), o =>
    some (c, if o = .ok ∧ c.torque_on = true then .moving frame frames else .reading)
  | .moving frame frames, o =>
    some (if frame.pose then operate c o (.gripping frame frames) else (c, .gripping frame frames))
  | .gripping frame frames, o =>
    some (if frame.gripper then operate c o (.next frames) else (c, .next frames))
  | .reading, _ => some (c, .ended)
  | .ended, _ => none

end

inductive Thread where
  | connect (gen : ℕ) (stage : Connect)
  | disconnect (stage : Disconnect)
  | set_torque (enable : Bool) (stage : SetTorque)
  | sequence (stage : Sequence)
  deriving DecidableEq

def Thread.step (c : Shared) (o low : Sdk) : Thread → Option (Shared × Thread)
  | .connect gen stage => (stage.step c gen o).map fun r => (r.1, .connect gen r.2)
  | .disconnect stage => (stage.step c).map fun r => (r.1, .disconnect r.2)
  | .set_torque enable stage => (stage.step c enable o low).map fun r => (r.1, .set_torque enable r.2)
  | .sequence stage => (stage.step c o).map fun r => (r.1, .sequence r.2)

inductive Call where
  | connect
  | disconnect
  | set_torque (enable : Bool)
  | execute_sequence (frames : List Frame)
  deriving DecidableEq

/-- `connect` reads the generation when it is called. -/
def Call.thread (c : Shared) : Call → Thread
  | .connect => .connect c.generation .waiting
  | .disconnect => .disconnect .called
  | .set_torque enable => .set_torque enable .called
  | .execute_sequence frames => .sequence (.called frames)

structure State where
  shared : Shared
  threads : List Thread

def State.init : State := ⟨.init, []⟩

/-- A call, or the next step of a thread, with how its calls of the SDK end. -/
inductive Label where
  | call (call : Call)
  | go (i : ℕ) (o low : Sdk)
  deriving DecidableEq

def State.next (c : State) : Label → Option State
  | .call call => some { c with threads := c.threads ++ [call.thread c.shared] }
  | .go i o low => do
    let t ← c.threads[i]?
    let (shared, t') ← t.step c.shared o low
    some ⟨shared, c.threads.set i t'⟩

def step (c : State) (a : Label) (c' : State) : Prop := c.next a = some c'

end LocalVoice.RebotArm
