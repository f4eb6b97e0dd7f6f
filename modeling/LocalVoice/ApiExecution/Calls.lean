import LocalVoice.BackendCoordinator.Residency
import LocalVoice.Lib.Run

/-! `execute_asr`, `execute_tts` and `execute_tts_clone` of `server/core/api_execution.py` under
    `BackendManager.acquire` and the coordinator. A step is a section of the calling task, of the owner
    task of `_execute_kokoro_call` or of its watcher between two awaits, or something an executor
    thread does; the calling task may be cancelled at each of its awaits, any number of times.

        entering ─(lease)─▶ queued ─(slot)─▶ decoding | polling ─▶ draining ─(slot back)─▶ leaving
                                                                              ─(lease back)─▶ returned
        owner    created ─▶ racing ─▶ awaiting | draining ─▶ closing ─▶ joining ─▶ ended

    A `clone_voice` and the `synthesize` of a backend that is not Kokoro run inline. -/

namespace LocalVoice.ApiExecution
open LocalVoice.Lib LocalVoice.BackendCoordinator

/-- What a request runs: `_decode` in an executor, `_execute_kokoro_call` with or without a watcher for
    the disconnect, or a call in the event loop. -/
inductive Kind where
  | asr
  | kokoro (watched : Bool)
  | inline
  deriving DecidableEq

def Kind.slot : Kind → Slot
  | .asr => .asr
  | .kokoro _ | .inline => .tts

/-- The job of the executor; `withdrawn` when its cancellation came before a thread took it. -/
inductive Thread where
  | none
  | queued
  | inside
  | left (ok : Bool)
  | withdrawn
  deriving DecidableEq

/-- What the event loop knows of the job. -/
inductive Future where
  | pending
  | result (ok : Bool)
  | cancelled
  deriving DecidableEq

/-- How a watcher ends; after its scope is cancelled it returns `False`. -/
inductive Seen where | disconnect | other | failed
  deriving DecidableEq

inductive Watcher where
  | none
  | running
  | ended (w : Seen)
  deriving DecidableEq

/-- What an execution gives: the native result or exception, `_TransportDisconnected`, the exception
    of the watcher, or that of an executor that takes no job. -/
inductive Result where
  | native (ok : Bool)
  | disconnected
  | watcher_failed
  | refused
  deriving DecidableEq

/-- Where `own_work` is; in `closing` and `joining` it is in its `finally`, with what it gives. -/
inductive Owner where
  | none
  | created
  | racing
  | awaiting
  | draining
  | closing (r : Result)
  | joining (r : Result)
  | ended (r : Result)
  deriving DecidableEq

/-- What the caller gets; `failed` is an error around the execution. -/
inductive Outcome where
  | returned (r : Result)
  | cancelled
  | failed
  deriving DecidableEq

/-- Where the calling task is. -/
inductive Stage where
  | entering
  | queued
  | decoding
  | polling
  | draining
  | leaving (o : Outcome)
  | returned (o : Outcome)
  deriving DecidableEq

/-- A request. Not in the code: `seen`, the owner saw the watcher end with a disconnect or a failure,
    and `native_first`, the native call was over before that. -/
structure Call where
  kind : Kind
  managed : Bool
  stage : Stage
  thread : Thread
  future : Future
  owner : Owner
  watcher : Watcher
  seen : Bool
  native_first : Bool
  deriving DecidableEq

def Call.new (kind : Kind) (managed : Bool) : Call :=
  ⟨kind, managed, .entering, .none, .pending, .none, .none, false, false⟩

/-- What happens beside the calling task. -/
inductive Move where
  | start
  | leave (ok : Bool)
  | set_future
  | withdraw
  | own
  | own_refused
  | watch (w : Seen)
  deriving DecidableEq

/-- A section of `own_work`. -/
def Call.own (c : Call) : Option Call :=
  match c.owner with
  | .created => some { c with
      thread := .queued
      watcher := if c.kind = .kokoro true then .running else .none
      owner := if c.kind = .kokoro true then .racing else .awaiting }
  | .racing =>
    match c.future, c.watcher with
    | .result ok, _ => some { c with owner := .closing (.native ok) }
    | _, .ended .disconnect => some { c with owner := .draining, seen := true }
    | _, .ended .other => some { c with owner := .awaiting }
    | _, .ended .failed => some { c with owner := .closing .watcher_failed, seen := true }
    | _, _ => none
  | .awaiting =>
    match c.future with
    | .result ok => some { c with owner := .closing (.native ok) }
    | _ => none
  | .draining =>
    match c.future with
    | .result _ => some { c with owner := .closing .disconnected }
    | _ => none
  | .closing r => if c.watcher = .running then none else some { c with owner := .joining r }
  | .joining r =>
    match c.future with
    | .result _ => some { c with owner := .ended r }
    | _ => none
  | .none | .ended _ => none

def Call.move (c : Call) : Move → Option Call
  | .start => if c.thread = .queued then some { c with thread := .inside } else none
  | .leave ok => if c.thread = .inside then some { c with thread := .left ok } else none
  | .set_future =>
    match c.thread, c.future with
    | .left ok, .pending => some { c with future := .result ok, native_first := !c.seen }
    | _, _ => none
  | .withdraw =>
    if c.thread = .queued ∧ c.future = .cancelled then some { c with thread := .withdrawn } else none
  | .own => c.own
  | .own_refused => if c.owner = .created then some { c with owner := .ended .refused } else none
  | .watch w => if c.watcher = .running then some { c with watcher := .ended w } else none

/-- The end of the body of `manager.acquire()`, or of a call that has no manager. -/
def Call.exit (c : Call) (o : Outcome) : Call :=
  { c with stage := if c.managed then .leaving o else .returned o }

/-- The requests, the leases of each manager and the coordinator's lock. -/
structure State where
  calls : List Call
  inflight_http : Slot → ℕ
  locked : Bool

def State.init : State := ⟨[], fun _ => 0, false⟩

inductive Act where
  | call (kind : Kind) (managed : Bool)
  | enter (i : ℕ) (prepared : Bool)
  | refuse (i : ℕ)
  | admitted (i : ℕ)
  | admit_inline (i : ℕ) (ok : Bool)
  | admit_fail (i : ℕ)
  | wake (i : ℕ)
  | cancel (i : ℕ)
  | move (i : ℕ) (m : Move)
  deriving DecidableEq

namespace State

def set_call (s : State) (i : ℕ) (c : Call) : State := { s with calls := s.calls.set i c }

/-- The coordinator's slot is given back, and the manager's body is left. -/
def end_body (s : State) (i : ℕ) (c : Call) (o : Outcome) : State :=
  { s.set_call i (c.exit o) with locked := false }

/-- What a wake of the calling task does, behind what it awaits. -/
def wake (s : State) (i : ℕ) (c : Call) : Option State :=
  match c.stage with
  | .decoding =>
    match c.future with
    | .result ok => some (s.end_body i c (.returned (.native ok)))
    | _ => none
  | .polling =>
    match c.owner with
    | .ended r => some (s.end_body i c (.returned r))
    | _ => none
  | .draining =>
    match c.owner with
    | .ended _ => some (s.end_body i c .cancelled)
    | _ => none
  | .leaving o =>
    some { s.set_call i { c with stage := .returned o } with
      inflight_http :=
        Function.update s.inflight_http c.kind.slot (s.inflight_http c.kind.slot - 1) }
  | .entering | .queued | .returned _ => none

/-- What a cancellation of the calling task does. It reaches the future of `_decode`, but not the owner
    of a Kokoro call; at the exit of `manager.acquire()` it skips the release. -/
def cancel (s : State) (i : ℕ) (c : Call) : Option State :=
  match c.stage with
  | .entering => some (s.set_call i { c with stage := .returned .cancelled })
  | .queued => some (s.set_call i (c.exit .cancelled))
  | .decoding =>
    some (s.end_body i
      { c with future := if c.future = .pending then .cancelled else c.future } .cancelled)
  | .polling | .draining => some (s.set_call i { c with stage := .draining })
  | .leaving _ => some (s.set_call i { c with stage := .returned .cancelled })
  | .returned _ => none

section
variable (serial : Bool)

/-- The next state, under a coordinator that has a lock (`serial`) or not. -/
def next (s : State) : Act → Option State
  | .call kind managed => some { s with calls := s.calls ++ [.new kind managed] }
  | .enter i prepared =>
    s.calls[i]?.bind fun c =>
      if c.stage = .entering then
        let c' := if prepared then { c with stage := .queued } else c.exit .failed
        some { s.set_call i c' with
          inflight_http :=
            if c.managed then
              Function.update s.inflight_http c.kind.slot (s.inflight_http c.kind.slot + 1)
            else s.inflight_http }
      else none
  | .refuse i =>
    s.calls[i]?.bind fun c =>
      if c.stage = .entering then some (s.set_call i { c with stage := .returned .failed }) else none
  | .admitted i =>
    s.calls[i]?.bind fun c =>
      if c.stage = .queued ∧ (serial && s.locked) = false then
        match c.kind with
        | .asr => some
            { s.set_call i { c with stage := .decoding, thread := .queued } with locked := serial }
        | .kokoro _ => some
            { s.set_call i { c with stage := .polling, owner := .created } with locked := serial }
        | .inline => none
      else none
  | .admit_inline i ok =>
    s.calls[i]?.bind fun c =>
      if c.stage = .queued ∧ (serial && s.locked) = false ∧ c.kind = .inline then
        some (s.end_body i c (.returned (.native ok)))
      else none
  | .admit_fail i =>
    s.calls[i]?.bind fun c =>
      if c.stage = .queued ∧ (serial && s.locked) = false then some (s.end_body i c .failed) else none
  | .wake i => s.calls[i]?.bind fun c => s.wake i c
  | .cancel i => s.calls[i]?.bind fun c => s.cancel i c
  | .move i m => s.calls[i]?.bind fun c => (c.move m).map (s.set_call i)

/-- No cancellation reaches a request whose decode is in the backend, or one at the exit of
    `manager.acquire()`, and no thread takes a job whose future was cancelled. -/
def joined (s : State) : Act → Bool
  | .cancel i =>
    (s.calls[i]?).all fun c => !(c.stage == .decoding && c.thread == .inside) &&
      match c.stage with
      | .leaving _ => false
      | _ => true
  | .move i .start => (s.calls[i]?).all fun c => c.future != .cancelled
  | _ => true

/-- The steps of the requests. -/
abbrev Steps : State → Act → State → Prop := fun s a t => s.next serial a = some t

/-- Those that `joined` admits. -/
abbrev Joined : State → Act → State → Prop :=
  restrict (fun s a => s.joined a = true) (Steps serial)

end
end State
end LocalVoice.ApiExecution
