import Mathlib.Data.Nat.Notation
import LocalVoice.Lib.Dict
import LocalVoice.Lib.Run
import LocalVoice.Lib.Tasks

/-! The motions of one arm: `ArmPlugin` of `agent/ovs_agent/plugins/actuator_actions.py`, the tools of
    `tools/action_tools.py`, `/actions/{name}/test` and `/actions/preview` of
    `actuator_observation_server.py`, and pipelines that are motion sources, as `GraspPlugin` is. A
    step is a section between two awaits, or what a worker thread does.

        worker:  created ──▶ queued ──▶ running ──▶ finished
                    └──────────┴──▶ dropped                (cancelled before a thread took it)
        task:    pending ──▶ cancelling ──▶ done
                    └─────────────────────────▲ -/

namespace LocalVoice.ArmPlugin
open LocalVoice.Lib

/-! ### Motions -/

/-- How `execute_sequence`, or the task that awaits it, ends. -/
inductive Outcome where
  | returned (ok : Bool)
  | raised
  | cancelled
  deriving DecidableEq

/-- The thread in `execute_sequence`. -/
inductive Worker where
  | created
  | queued
  | running
  | finished (o : Outcome)
  | dropped
  deriving DecidableEq

inductive Task where
  | pending
  | cancelling
  | done (o : Outcome)
  deriving DecidableEq

/-- Who asked for the motion. -/
inductive Source where
  | execute_action (name : String)
  | dispatch_action (name : String)
  | http
  | pipeline (k : ℕ) (name : String)
  deriving DecidableEq

structure Motion where
  source : Source
  worker : Worker
  task : Task
  deriving DecidableEq

namespace Motion
variable (m : Motion)

/-- `task.done()`. -/
def done : Bool :=
  match m.task with
  | .done _ => true
  | _ => false

/-- The motion was started and its worker thread has not finished. -/
def active : Bool :=
  match m.worker with
  | .created => true
  | .queued => true
  | .running => true
  | _ => false

/-- `task.cancel()`. -/
def cancel : Motion := if m.task = .pending then { m with task := .cancelling } else m

/-- The loop learns how the motion, or the await of it, has ended. A worker that no thread has taken
    is called off by a cancellation; one that runs is not. -/
def deliver : Option Motion :=
  match m.task, m.worker with
  | .pending, .finished o => some { m with task := .done o }
  | .cancelling, .created => some { m with task := .done .cancelled, worker := .dropped }
  | .cancelling, .queued => some { m with task := .done .cancelled, worker := .dropped }
  | .cancelling, _ => some { m with task := .done .cancelled }
  | _, _ => none

end Motion

/-! ### Calls -/

/-- What a call returns. -/
inductive Result where
  | not_started (error : String)
  | already_running
  | started
  | completed_in_dispatch (success : Bool)
  | executed (success : Bool)
  | error
  | no_inflight
  | cancelled
  deriving DecidableEq

/-- The request was turned down, or its motion was running already. -/
def Result.refused : Result → Bool
  | .not_started _ => true
  | .already_running => true
  | _ => false

/-- A coroutine of the plugin that awaits the motion `m`, or what it has returned. -/
inductive Call where
  | executing (m : ℕ)
  | dispatching (name : String) (m : ℕ)
  | waiting (name : String) (m : ℕ)
  | ended (r : Result)
  deriving DecidableEq

/-- `sources` are the pipelines whose `_busy_motion_name` was registered, `pipeline k` is the
    `_grasp_task` of one. -/
structure State where
  inflight_tasks : Dict String ℕ
  sources : List ℕ
  test_running : Bool
  pipeline : ℕ → Option ℕ
  motions : List Motion
  calls : List Call

namespace State
variable (c : State)

def init : State := ⟨.empty, [], false, fun _ => none, [], []⟩

/-- `task is not None and not task.done()`. -/
def live (m : ℕ) : Bool := (c.motions[m]?).any fun x => !x.done

def name_of (m : ℕ) : String :=
  match (c.motions[m]?).map Motion.source with
  | some (.pipeline _ name) => name
  | _ => ""

/-- `GraspPlugin._busy_motion_name`. -/
def busy_motion_name (k : ℕ) : Option String :=
  (c.pipeline k).bind fun m => if c.live m then some (c.name_of m) else none

def busy_action : Option String :=
  ((c.inflight_tasks.items.find? fun e => c.live e.2).map Prod.fst).or
    (c.sources.findSome? c.busy_motion_name)

def reply (r : Result) : State := { c with calls := c.calls ++ [.ended r] }

/-- A motion is started. -/
def add (source : Source) (worker : Worker) : State :=
  { c with motions := c.motions ++ [⟨source, worker, .pending⟩] }

def await (call : Call) : State := { c with calls := c.calls ++ [call] }

end State

/-- What `dispatch_action` and `execute_action` find: no arm, no such action, or its frames. -/
inductive Lookup where
  | no_arm
  | unknown
  | frames
  deriving DecidableEq

def arm_busy (busy : String) : String :=
  "arm busy: '" ++ busy ++ "' still running. Do NOT call any motion tool again this turn — " ++
    "tell the user to wait."

def already_running (mine : String) : String :=
  "already_running: the arm is still executing '" ++ mine ++ "'. Do NOT call any motion tool " ++
    "again this turn — tell the user the arm is busy and to wait for the completion tone."

def grasp_arm_busy (busy : String) : String :=
  "arm_busy: the arm is still executing '" ++ busy ++ "'. Do NOT call any motion tool again this " ++
    "turn — tell the user the arm is busy and to wait."

section
variable (c : State)

/-- `execute_action`: nothing is looked up but the frames, and nothing is recorded. -/
def execute_action (name : String) : Lookup → State
  | .no_arm => c.reply (.not_started "arm not initialised")
  | .unknown => c.reply (.not_started ("unknown action: " ++ name))
  | .frames => (c.add (.execute_action name) .queued).await (.executing c.motions.length)

/-- `dispatch_action`, up to its `wait_for`. -/
def dispatch_action (name : String) : Lookup → State
  | .no_arm => c.reply (.not_started "arm not initialised")
  | .unknown => c.reply (.not_started ("unknown action: " ++ name))
  | .frames =>
    if (c.inflight_tasks.get? name).any c.live then c.reply .already_running
    else match c.busy_action with
      | some busy => c.reply (.not_started (arm_busy busy))
      | none =>
        { (c.add (.dispatch_action name) .created).await (.dispatching name c.motions.length) with
          inflight_tasks := c.inflight_tasks.set name c.motions.length }

def wait_action_completion (name : String) : State :=
  match c.inflight_tasks.get? name with
  | none => c.reply .no_inflight
  | some m => c.await (.waiting name m)

/-- `test_action` and `preview_frames`, for frames that are valid. -/
def test_action (torque_on settled : Bool) : State :=
  if torque_on = false then c.reply (.not_started "torque_off")
  else if settled = false then c.reply (.not_started "debounce")
  else if c.test_running then c.reply (.not_started "busy")
  else { (c.add .http .queued).reply .started with test_running := true }

/-- `_dispatch_grasp`, `_dispatch_search` and `_dispatch_put_down`, with `_refuse_if_motion_busy`. -/
def dispatch_grasp (k : ℕ) (name : String) : State :=
  if k ∉ c.sources then c.reply (.not_started "arm not available")
  else match c.busy_motion_name k, c.busy_action with
    | some mine, _ => c.reply (.not_started (already_running mine))
    | none, some busy => c.reply (.not_started (grasp_arm_busy busy))
    | none, none =>
      { (c.add (.pipeline k name) .created).reply .started with
        pipeline := fun j => if j = k then some c.motions.length else c.pipeline j }

end

/-! ### Steps -/

inductive Label where
  | execute_action (name : String) (found : Lookup)
  | dispatch_action (name : String) (found : Lookup)
  | wait_action_completion (name : String)
  | test_action (torque_on settled : Bool)
  | dispatch_grasp (k : ℕ) (name : String)
  | register_motion_source (k : ℕ)
  -- `GraspPlugin.stop`: its task is cancelled, and forgotten
  | stop (k : ℕ)
  | forget (k : ℕ)
  -- the task of the motion begins, a thread takes it, `execute_sequence` ends, the loop learns of it
  | begin (m : ℕ)
  | take (m : ℕ)
  | finish (m : ℕ) (o : Outcome)
  | deliver (m : ℕ)
  -- a call goes on, its `wait_for` runs out, it is cancelled
  | resume (i : ℕ)
  | timeout (i : ℕ)
  | cancel (i : ℕ)
  deriving DecidableEq

/-- The tool that `register_arm_tools` makes of an action. -/
def tool (response_mode : Option String) (name : String) (found : Lookup) : Label :=
  if response_mode.getD "parallel" = "await" then .execute_action name found
  else .dispatch_action name found

/-- What `execute_action` and `wait_action_completion` return. -/
def Outcome.result : Outcome → Result
  | .returned ok => .executed ok
  | .raised => .error
  | .cancelled => .cancelled

/-- What a call does when the task it awaits is done: the slot is popped, by `wait_action_completion`
    only if it still holds that task. -/
def Call.resume (inflight : Dict String ℕ) : Call → Outcome → Dict String ℕ × Result
  | .dispatching name _, .returned ok => (inflight.erase name, .completed_in_dispatch ok)
  | .dispatching name _, .raised => (inflight.erase name, .error)
  | .waiting name m, o =>
    (if inflight.get? name = some m then inflight.erase name else inflight, o.result)
  | _, o => (inflight, o.result)

def Call.motion : Call → Option ℕ
  | .executing m => some m
  | .dispatching _ m => some m
  | .waiting _ m => some m
  | .ended _ => none

namespace State
variable (c : State)

def set (m : ℕ) (x : Motion) : State := { c with motions := c.motions.set m x }

/-- The worker of a motion goes from `w` to `w'`; a task that was cancelled does not begin. -/
def advance (m : ℕ) (w w' : Worker) : Option State := do
  let x ← c.motions[m]?
  if x.worker = w ∧ (w = .created → x.task = .pending) then some (c.set m { x with worker := w' })
  else none

def cancel_task (m : ℕ) : Option State := (c.motions[m]?).map fun x => c.set m x.cancel

/-- `deliver`; the thread of a test run clears the flag. -/
def deliver (m : ℕ) : Option State := do
  let x ← c.motions[m]?
  let x' ← x.deliver
  some { c.set m x' with test_running := c.test_running && x.source ≠ .http }

def resume (i : ℕ) : Option State := do
  let call ← c.calls[i]?
  let m ← call.motion
  let x ← c.motions[m]?
  match x.task with
  | .done o =>
    some { c with
      inflight_tasks := (call.resume c.inflight_tasks o).1
      calls := c.calls.set i (.ended (call.resume c.inflight_tasks o).2) }
  | _ => none

/-- The shield of `dispatch_action` keeps its task; the other calls cancel what they await. -/
def cancel (i : ℕ) : Option State := do
  let call ← c.calls[i]?
  match call with
  | .dispatching .. => some { c with calls := c.calls.set i (.ended .cancelled) }
  | .executing m => c.cancel_task m
  | .waiting _ m => c.cancel_task m
  | .ended _ => none

def timeout (i : ℕ) : Option State := do
  let call ← c.calls[i]?
  match call with
  | .dispatching .. => some { c with calls := c.calls.set i (.ended .started) }
  | _ => none

def next : Label → Option State
  | .execute_action name found => some (execute_action c name found)
  | .dispatch_action name found => some (dispatch_action c name found)
  | .wait_action_completion name => some (wait_action_completion c name)
  | .test_action torque_on settled => some (test_action c torque_on settled)
  | .dispatch_grasp k name => some (dispatch_grasp c k name)
  | .register_motion_source k => some { c with sources := c.sources ++ [k] }
  | .stop k => (c.pipeline k).bind c.cancel_task
  | .forget k => some { c with pipeline := fun j => if j = k then none else c.pipeline j }
  | .begin m => c.advance m .created .queued
  | .take m => c.advance m .queued .running
  | .finish m o => if o = .cancelled then none else c.advance m .running (.finished o)
  | .deliver m => c.deliver m
  | .resume i => c.resume i
  | .timeout i => c.timeout i
  | .cancel i => c.cancel i

end State

def step (c : State) (a : Label) (c' : State) : Prop := c.next a = some c'

end LocalVoice.ArmPlugin
