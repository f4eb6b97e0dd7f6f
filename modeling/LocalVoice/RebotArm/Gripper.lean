import Mathlib.Algebra.Order.Field.Rat
import Mathlib.Algebra.Order.Group.Unbundled.Abs
import LocalVoice.Lib.Run
import LocalVoice.Lib.Tasks

/-! The gripper of `RebotArm` in `agent/ovs_agent/apps/voice_rebot_arm/rebot_arm.py`: `_g_tick` and
    any number of threads in `open_gripper`, `close_gripper`, `grasp` and `release_gripper`. A step is
    a section under `_g_lock`, or what lies between two of them; angles, forces and times are exact.

        tick: idle ▶ sampled ▶ opening ▶ commanding ▶ (stalling) ▶ setting ▶ idle
                         ├───▶ closing ──────────────────────────────▲
                         ├───▶ touching ▶ confirming ▶ idle          │
                         ├───▶ gripping ▶ idle                       │
                         └───▶ homing ───────────────────────────────┘ -/

namespace LocalVoice.RebotArm.Gripper

/-! ### Constants -/

def max_dist_m : ℚ := 1 / 10
def angle_open : ℚ := -5763 / 1000
def open_soft_limit : ℚ := -585 / 100
def arrive_tol : ℚ := 12 / 100
def hard_stop_angle : ℚ := -5 / 100
def tau_max : ℚ := 3 / 2
def open_rate : ℚ := 4
def open_rate_slow : ℚ := 4
def slow_zone : ℚ := -5
def stall_vel : ℚ := 5 / 100
def startup_dist : ℚ := 30 / 100
def default_force : ℚ := 30 / 100
def ctrl_rate : ℚ := 500
def open_stall_s : ℚ := 20 / 100
def close_grace_s : ℚ := 40 / 100
def fb_pos_sane : ℚ := 7
def fb_vel_sane : ℚ := 25

/-- `np.clip`. -/
def clip (x lo hi : ℚ) : ℚ := min (max x lo) hi

/-! ### What the threads share -/

/-- `_GS`. -/
inductive GS where
  | idle
  | opening
  | closing
  | contact
  | holding
  | homing
  deriving DecidableEq

structure Fields where
  state : GS
  pos : ℚ
  vel : ℚ
  pos_start : ℚ
  q_contact : ℚ
  contact_elapsed : ℚ
  open_q_des : ℚ
  open_target : ℚ
  open_last_target : Option ℚ
  stall_s : ℚ
  close_elapsed : ℚ
  target_force : ℚ

/-- A state that a tick set: `saw` is what it had read, when commands had set the state `read` times,
    and `found` what it replaced, when they had `epoch` times. -/
structure Move where
  saw : GS
  found : GS
  next : GS
  read : ℕ
  epoch : ℕ
  deriving DecidableEq

/-- What a run leaves behind; the code holds none of it. `epoch` counts how often a command has set the
    state. Since the command that began the last opening at `begun`: its target `aim`, the angle `start`
    it began at, the time `spent` ramping, and the angles that were `commanded`, each with the time spent
    before, newest first. `cap` is that of the last grasp that closed, with its epoch; `holds` are the
    forces that were applied, with the cap there was; `entered` are the epochs in which a tick set
    `HOLDING`. -/
structure Trace where
  epoch : ℕ
  moves : List Move
  begun : ℕ
  aim : ℚ
  start : ℚ
  spent : ℚ
  commanded : List (ℚ × ℚ)
  cap : Option (ℕ × ℚ)
  holds : List (Option (ℕ × ℚ) × ℚ)
  entered : List ℕ

namespace Fields
variable (c : Fields)

def init : Fields :=
  ⟨.idle, 0, 0, 0, 0, 0, open_soft_limit, open_soft_limit, none, 0, 0, default_force⟩

/-- The start of `_g_tick`: no frame, or a corrupt one, leaves what was read before. -/
def sample : Option (ℚ × ℚ) → Fields
  | none => c
  | some (pos, vel) =>
    if |pos| < fb_pos_sane ∧ |vel| < fb_vel_sane then { c with pos := pos, vel := vel } else c

/-- The position that `_g_safe_mit` sends. -/
def safe_mit (pos : ℚ) : ℚ := clip pos open_soft_limit 0

def rate : ℚ := if c.open_q_des > slow_zone then open_rate else open_rate_slow

/-- The section that moves the opening on by `dt`. -/
def ramp (dt : ℚ) : Fields :=
  { c with open_q_des := max (c.open_q_des - c.rate * dt) c.open_target }

def ramp_done : Bool := c.open_q_des ≤ c.open_target + 1 / 1000000000

def stall (dt vel : ℚ) : Fields :=
  { c with stall_s := if |vel| < stall_vel then c.stall_s + dt else 0 }

/-- The section in which a tick that saw `saw` sets `next`. -/
def move (saw next : GS) (pos : ℚ) : Fields :=
  match saw, next with
  | .opening, _ => { c with state := next, stall_s := 0 }
  | .closing, .contact => { c with q_contact := pos, contact_elapsed := 0, state := .contact }
  | _, _ => { c with state := next }

/-- The sections of `open_gripper` and `release_gripper` that begin an opening. -/
def open_to (target : ℚ) : Fields :=
  { c with open_target := target, open_q_des := c.pos, stall_s := 0, state := .opening }

/-- The section of `close_gripper` and `grasp`. -/
def close : Fields :=
  { c with open_last_target := none, pos_start := c.pos, close_elapsed := 0, state := .closing }

def park : Fields := { c with state := .idle, stall_s := 0 }

end Fields

namespace Trace
variable (r : Trace)

def init : Trace := ⟨0, [], 0, open_soft_limit, 0, 0, [], none, [], []⟩

/-- A command sets the state. -/
def sets : Trace := { r with epoch := r.epoch + 1 }

/-- A command begins an opening. -/
def opens (aim start : ℚ) : Trace :=
  { r with epoch := r.epoch + 1, begun := r.epoch + 1, aim := aim, start := start, spent := 0, commanded := [] }

/-- A grasp closes. -/
def closes (cap : ℚ) : Trace := { r with epoch := r.epoch + 1, cap := some (r.epoch + 1, cap) }

/-- A tick sets `next` in the place of `found`. -/
def moved (saw found next : GS) (read : ℕ) : Trace :=
  { r with
    moves := ⟨saw, found, next, read, r.epoch⟩ :: r.moves
    entered := if next = .holding then r.epoch :: r.entered else r.entered }

end Trace

/-! ### The control tick -/

/-- What a tick takes with it: `elapsed`, and the feedback it read. -/
structure Sample where
  dt : ℚ
  pos : ℚ
  vel : ℚ

/-- `seen`: the epoch at which the tick read the state. -/
inductive Tick where
  | idle
  | sampled (x : Sample)
  | opening (x : Sample) (seen : ℕ)
  | commanding (x : Sample) (seen : ℕ) (target q : ℚ) (ramp_done : Bool) (begun : ℕ) (spent : ℚ)
  | stalling (x : Sample) (seen : ℕ)
  | closing (x : Sample) (seen : ℕ)
  | touching (x : Sample) (seen : ℕ)
  | confirming (x : Sample) (seen : ℕ)
  | gripping (force : ℚ) (cap : Option (ℕ × ℚ))
  | homing (x : Sample) (seen : ℕ)
  | setting (saw next : GS) (pos : ℚ) (seen : ℕ)

namespace Tick

/-- The section that reads the state and the force. -/
def read (c : Fields) (r : Trace) (x : Sample) : Tick :=
  match c.state with
  | .idle => .idle
  | .opening => .opening x r.epoch
  | .closing => .closing x r.epoch
  | .contact => .touching x r.epoch
  | .holding => .gripping c.target_force r.cap
  | .homing => .homing x r.epoch

/-- After the section of a closing tick. -/
def closed (c : Fields) (x : Sample) (seen : ℕ) : Tick :=
  if |x.pos - c.pos_start| ≥ startup_dist ∨ c.close_elapsed ≥ close_grace_s then
    if x.pos > hard_stop_angle then .setting .closing .idle x.pos seen
    else if |x.vel| < stall_vel then .setting .closing .contact x.pos seen
    else .idle
  else .idle

/-- The next step of `_g_tick`. -/
def step (c : Fields) (r : Trace) : Tick → Option (Fields × Trace × Tick)
  | .idle => none
  | .sampled x => some (c, r, read c r x)
  | .opening x seen =>
    let c' := c.ramp x.dt
    let spent := r.spent + x.dt
    some (c', { r with spent := spent },
      .commanding x seen c'.open_target c'.open_q_des c'.ramp_done r.begun spent)
  | .commanding x seen target q ramp_done _ spent =>
    some (c, { r with commanded := (spent, Fields.safe_mit q) :: r.commanded },
      if |x.pos - target| < arrive_tol then .setting .opening .idle x.pos seen
      else if ramp_done then .stalling x seen else .idle)
  | .stalling x seen =>
    let c' := c.stall x.dt x.vel
    some (c', r, if c'.stall_s ≥ open_stall_s then .setting .opening .idle x.pos seen else .idle)
  | .closing x seen =>
    let c' := { c with close_elapsed := c.close_elapsed + x.dt }
    some (c', r, closed c' x seen)
  | .touching x seen => some (c, r, .confirming x seen)
  | .confirming x seen =>
    let c' := { c with contact_elapsed := c.contact_elapsed + x.dt }
    if c'.contact_elapsed ≥ 2 / 100 then
      some (c'.move .contact .holding x.pos, r.moved .contact c.state .holding seen, .idle)
    else some (c', r, .idle)
  | .gripping force _ => some (c, { r with holds := (r.cap, force) :: r.holds }, .idle)
  | .homing x seen =>
    some (c, r, if |x.pos| < arrive_tol then .setting .homing .idle x.pos seen else .idle)
  | .setting saw next pos seen =>
    some (c.move saw next pos, r.moved saw c.state next seen, .idle)

end Tick

/-! ### The commands -/

/-- The arguments of `grasp` that are no times. -/
structure Grasp where
  force : Option ℚ
  adaptive : Bool
  adaptive_start : ℚ
  adaptive_step : ℚ
  adaptive_creep_rad : ℚ

namespace Grasp
variable (g : Grasp)

def cap (target_force : ℚ) : ℚ := clip (g.force.getD target_force) (5 / 100) tau_max

def initial (cap : ℚ) : ℚ := if g.adaptive then clip g.adaptive_start (5 / 100) cap else cap

/-- The call sets the force before it closes. -/
def forces : Bool := g.force.isSome || g.adaptive

end Grasp

/-- `own`: the epoch that the call made. -/
inductive Call where
  | opening (distance_m : ℚ)
  | opened (target : ℚ)
  | settling
  | parking
  | open_ended (ok : Bool)
  | closing
  | close_ended
  | forcing (g : Grasp) (cap : ℚ)
  | grasping (g : Grasp) (cap : ℚ)
  | waiting (g : Grasp) (cap : ℚ) (own : ℕ)
  | abandoning (own : ℕ)
  | ramping (g : Grasp) (cap tf : ℚ) (own : ℕ)
  | watching (g : Grasp) (cap tf p0 : ℚ) (own : ℕ)
  | creeping (g : Grasp) (cap tf p0 : ℚ) (own : ℕ)
  | bumping (g : Grasp) (cap tf : ℚ) (own : ℕ)
  | grasped (ok : Bool) (own : ℕ)
  | releasing
  | emptying
  | sending_home
  | homing
  | release_ended

/-- `_g_open_target` of `open_gripper(distance_m)`. -/
def target (distance_m : ℚ) : ℚ :=
  max (clip distance_m 0 max_dist_m / max_dist_m * angle_open) open_soft_limit

inductive Command where
  | open_gripper (distance_m : ℚ)
  | close_gripper
  | grasp (g : Grasp)
  | release_gripper

/-- A grasp takes its cap when it is called. -/
def Command.call (c : Fields) : Command → Call
  | .open_gripper distance_m => .opening distance_m
  | .close_gripper => .closing
  | .grasp g =>
    if g.forces then .forcing g (g.cap c.target_force) else .grasping g (g.cap c.target_force)
  | .release_gripper => .releasing

/-- The next step of a command; `late`: its time is over. -/
def Call.step (c : Fields) (r : Trace) (late : Bool) : Call → Option (Fields × Trace × Call)
  | .opening distance_m =>
    some (c.open_to (target distance_m), r.opens (target distance_m) c.pos, .opened (target distance_m))
  | .opened target => some ({ c with open_last_target := some target }, r, .settling)
  | .settling => some (c, r,
      if late then .parking else if c.state = .idle then .open_ended true else .settling)
  | .parking => some (c.park, r.sets, .open_ended false)
  | .open_ended _ => none
  | .closing => some (c.close, r.sets, .close_ended)
  | .close_ended => none
  | .forcing g cap => some ({ c with target_force := g.initial cap }, r, .grasping g cap)
  | .grasping g cap => some (c.close, r.closes cap, .waiting g cap (r.epoch + 1))
  | .waiting g cap own => some (c, r,
      if late then .abandoning own
      else if c.state = .holding then
        if g.adaptive then .ramping g cap (g.initial cap) own else .grasped true own
      else if c.state = .idle then .grasped false own
      else .waiting g cap own)
  | .abandoning own => some ({ c with state := .idle }, r.sets, .grasped false own)
  | .ramping g cap tf own => some (c, r,
      if late ∨ ¬tf < cap then .grasped true own else .watching g cap tf c.pos own)
  | .watching g cap tf p0 own => some (c, r,
      if c.state = .holding then .creeping g cap tf p0 own else .grasped true own)
  | .creeping g cap tf p0 own => some (c, r,
      if c.pos - p0 < g.adaptive_creep_rad then .grasped true own
      else .bumping g cap (min cap (tf + g.adaptive_step)) own)
  | .bumping g cap tf own =>
    some ({ c with target_force := tf, q_contact := c.pos }, r, .ramping g cap tf own)
  | .grasped .. => none
  -- the target is that of the last opening
  | .releasing => some (c.open_to c.open_target, r.opens c.open_target c.pos, .emptying)
  | .emptying => some (c, r, if late ∨ c.state = .idle then .sending_home else .emptying)
  | .sending_home => some ({ c with state := .homing }, r.sets, .homing)
  | .homing => some (c, r, if late ∨ c.state = .idle then .release_ended else .homing)
  | .release_ended => none

/-! ### Runs -/

structure State where
  fields : Fields
  trace : Trace
  tick : Tick
  calls : List Call

def State.init : State := ⟨.init, .init, .idle, []⟩

/-- The control loop begins a tick with what the motor reports, or takes its next step; a command is
    called, or takes its next step. -/
inductive Label where
  | tick (elapsed : ℚ) (feedback : Option (ℚ × ℚ))
  | go
  | call (command : Command)
  | run (i : ℕ) (late : Bool)

def State.next (s : State) : Label → Option State
  | .tick elapsed feedback =>
    match s.tick with
    | .idle =>
      if elapsed ≥ 1 / ctrl_rate then
        let c := s.fields.sample feedback
        some { s with fields := c, tick := .sampled ⟨elapsed, c.pos, c.vel⟩ }
      else none
    | _ => none
  | .go => (s.tick.step s.fields s.trace).map fun x => { s with fields := x.1, trace := x.2.1, tick := x.2.2 }
  | .call command => some { s with calls := s.calls ++ [command.call s.fields] }
  | .run i late => do
    let call ← s.calls[i]?
    let (c, r, call') ← call.step s.fields s.trace late
    some { s with fields := c, trace := r, calls := s.calls.set i call' }

def step (s : State) (a : Label) (s' : State) : Prop := s.next a = some s'

end LocalVoice.RebotArm.Gripper
