import LocalVoice.Lib.Run
import Mathlib.Data.Nat.Notation

/-! The ASR side of a multi-utterance `/v2v/stream` session: the dispatcher, which opens utterances
    and stamps endpoints, and `asr_out_task`, which polls for partials and finalises. The two
    interleave at their awaits only: a step is the code between two of them. Of the session manager
    just its current generation is kept; `on_speech_start` raises it at some point of the call.

        asr_out_task:  head ──▶ poll_lock ──▶ polling ──▶ polled ──▶ sending_partial
                         ▲                                   └──▶ (gate) ◀──┘
                         │         finalize_lock ◀── preparing ◀── announcing
                         └── sending ◀── finalizing

    `belongs`, `overtaken` and `finalizes` are not in the source: they record what a finalise is
    for, whether the generation was raised since that was settled, and what each finalise found. -/

namespace LocalVoice.V2V.AsrTurns
open LocalVoice.Lib

/-- `endpoint_pending`. -/
inductive Endpoint where
  | vad
  | client_eos
  deriving DecidableEq

/-- What the frontend VAD makes of a chunk. `keeps`: the stream prefers its backend's endpoints and
    the manager is not idle. `may_finalize`: `frontend_eou_may_finalize`. -/
inductive Vad where
  | quiet
  | speech_start (keeps : Bool)
  | speech_end (may_finalize : Bool)
  deriving DecidableEq

/-- The client frames that touch the ASR side. -/
inductive Frame where
  | audio (event : Vad)
  | asr_eos
  | asr_prepare
  | abort
  deriving DecidableEq

/-- The two places that call `on_speech_start`. -/
inductive Site where
  | vad
  | lazily
  deriving DecidableEq

/-- Where the dispatcher is suspended. A name in `_lock` waits for the coordinator. -/
inductive Dispatcher where
  | receive
  /-- `send_json(speech_start)`. -/
  | speech_started (keeps : Bool)
  | opening_lock (site : Site) (event : Vad)
  /-- In `on_speech_start`, the generation not raised yet. -/
  | opening (site : Site) (event : Vad)
  /-- In `on_speech_start`, the generation raised. -/
  | opened (site : Site) (event : Vad) (new_gen : ℕ)
  /-- `send_json` of `asr_unavailable`. -/
  | unavailable (site : Site) (raised : Bool)
  | preroll_lock (event : Vad)
  | preroll (event : Vad)
  | accept_lock (event : Vad)
  | accepting (event : Vad)
  /-- `send_json(speech_end)`. -/
  | speech_ended
  | cancel_lock
  | cancelling
  | ended (raised : Bool)
  deriving DecidableEq

/-- The generation has been raised, and the dispatcher has not heard of it. -/
def Dispatcher.raised : Dispatcher → Bool
  | .opened .. => true
  | .unavailable _ raised | .ended raised => raised
  | _ => false

/-- Where `asr_out_task` is suspended. `belongs` is the generation of the firing endpoint. -/
inductive AsrOut where
  | head
  /-- `asr_manager.cancel("turn_timeout")` and what follows when it fails. -/
  | timed_out
  | poll_lock
  | polling
  | polled (partial_gen : ℕ)
  | sending_partial (partial_gen : ℕ) (is_endpoint : Bool)
  /-- `send_json` of `asr_endpoint`. -/
  | announcing (belongs : Option ℕ)
  | preparing (task finalize_gen : ℕ) (belongs : Option ℕ)
  | finalize_lock (finalize_gen : ℕ) (belongs : Option ℕ)
  | finalizing (finalize_gen : ℕ)
  /-- The enrichments and `send_json` of a final, or of an error. -/
  | sending
  | ended
  deriving DecidableEq

/-- Who can hold the coordinator's lock. -/
inductive Holder where
  | dispatcher
  | asr_out
  | elsewhere
  deriving DecidableEq

/-- `BackendCoordinator`, as far as `acquire` goes. -/
inductive Coordinator where
  | concurrent
  | serialized (holder : Option Holder)
  deriving DecidableEq

def Coordinator.acquire (h : Holder) : Coordinator → Option Coordinator
  | .concurrent => some .concurrent
  | .serialized none => some (.serialized (some h))
  | .serialized (some _) => none

def Coordinator.release (h : Holder) : Coordinator → Coordinator
  | .concurrent => .concurrent
  | .serialized holder => .serialized (if holder = some h then none else holder)

/-- What a session is opened with: `vad is not None`, and the backend's
    `prefer_backend_endpoint_vad`. -/
structure Config where
  vad : Bool
  backend_endpoint : Bool

structure Session where
  /-- `asr_manager.current_generation`. -/
  current_generation : ℕ
  coord : Coordinator
  asr_active : Bool
  asr_active_gen : ℕ
  endpoint_pending : Option Endpoint
  endpoint_pending_gen : Option ℕ
  asr_prepare_task : Option ℕ
  asr_prepare_gen : Option ℕ
  /-- The prepare tasks ever made, by whether they are done. -/
  prepares : List Bool
  dispatcher : Dispatcher
  asr_out : AsrOut
  overtaken : Bool
  finalizes : List (Option ℕ × ℕ)
  deriving DecidableEq

def Session.init (coord : Coordinator) : Session :=
  ⟨0, coord, false, 0, none, none, none, none, [], .receive, .head, false, []⟩

namespace Session

def clear_endpoint (s : Session) : Session :=
  { s with endpoint_pending := none, endpoint_pending_gen := none }

def clear_asr_prepare_state (s : Session) : Session :=
  { s with asr_prepare_task := none, asr_prepare_gen := none }

/-- `_schedule_asr_prepare`. -/
def schedule_asr_prepare (s : Session) : Session :=
  if s.asr_active = false then s
  else if s.asr_prepare_task.bind (s.prepares[·]?) = some false ∧
      s.asr_prepare_gen = some s.asr_active_gen then s
  else
    { s with
      asr_prepare_gen := some s.asr_active_gen
      asr_prepare_task := some s.prepares.length
      prepares := s.prepares ++ [false] }

def stamp (s : Session) (e : Endpoint) : Session :=
  { s with endpoint_pending := some e, endpoint_pending_gen := some s.asr_active_gen }

/-! The dispatcher -/

/-- The end of an audio frame: the endpoint is stamped after the chunk has been accepted. -/
def speech_end (s : Session) : Vad → Session
  | .speech_end true => { s.schedule_asr_prepare.stamp .vad with dispatcher := .speech_ended }
  | .speech_end false => { s with dispatcher := .speech_ended }
  | _ => { s with dispatcher := .receive }

def accept (s : Session) (event : Vad) : Session :=
  if s.asr_active then { s with dispatcher := .accept_lock event } else s.speech_end event

/-- The lazy open on a chunk without an utterance. -/
def open_lazily (cfg : Config) (s : Session) (event : Vad) : Session :=
  if (cfg.vad = false ∨ cfg.backend_endpoint) ∧ s.asr_active = false ∧
      s.endpoint_pending = none then
    { s with dispatcher := .opening_lock .lazily event }
  else s.accept event

/-- `on_speech_start` has returned `new_gen`. -/
def start_turn (s : Session) (new_gen : ℕ) : Session :=
  { s.clear_endpoint.clear_asr_prepare_state with asr_active := true, asr_active_gen := new_gen }

/-- `on_speech_start` has raised, and the client has been told. -/
def skip_turn (s : Session) : Site → Session
  | .vad => { s.clear_endpoint with asr_active := false, dispatcher := .receive }
  | .lazily => { s with asr_active := false, dispatcher := .receive }

def frame (cfg : Config) (s : Session) : Frame → Session
  | .audio event =>
    match if cfg.vad then event else .quiet with
    | .speech_start keeps => { s with dispatcher := .speech_started keeps }
    | event => s.open_lazily cfg event
  | .asr_eos => s.stamp .client_eos
  | .asr_prepare => s.schedule_asr_prepare
  | .abort => if s.asr_active then { s with dispatcher := .cancel_lock } else s

/-! `asr_out_task` -/

/-- The part of a fired endpoint up to the next await: finalise a live utterance, or send an empty
    final. -/
def fire (s : Session) (belongs : Option ℕ) : Session :=
  if s.asr_active then
    match s.asr_prepare_task with
    | some k =>
      if s.asr_prepare_gen = some s.asr_active_gen ∧ s.prepares[k]? = some false then
        { s with asr_out := .preparing k s.asr_active_gen belongs }
      else { s with asr_out := .finalize_lock s.asr_active_gen belongs }
    | none => { s with asr_out := .finalize_lock s.asr_active_gen belongs }
  else { s with asr_out := .sending }

/-- The gen-race gate: a stamp of another generation is dropped. -/
def drop_stale (s : Session) : Session :=
  if s.endpoint_pending.isSome ∧ s.endpoint_pending_gen.isSome ∧
      s.endpoint_pending_gen ≠ some s.asr_active_gen then s.clear_endpoint
  else s

/-- The loop body from the gate on, after a poll of `partial_gen`. A stamped endpoint is overtaken
    when an `on_speech_start` under way has raised the generation. -/
def endpoint (s : Session) (is_endpoint : Bool) (partial_gen : ℕ) : Session :=
  match s.drop_stale.endpoint_pending with
  | some .vad =>
    { s.clear_endpoint with
      overtaken := s.dispatcher.raised
      asr_out := .announcing s.endpoint_pending_gen }
  | some .client_eos =>
    fire { s.clear_endpoint with overtaken := s.dispatcher.raised } s.endpoint_pending_gen
  | none =>
    if is_endpoint ∧ s.asr_active then
      { s.clear_endpoint with asr_out := .announcing (some partial_gen) }
    else { s.drop_stale with asr_out := .head }

/-- One pass of the loop up to its first await. -/
def loop (s : Session) : Session :=
  if s.asr_active then { s with asr_out := .poll_lock } else s.endpoint false 0

/-- `get_partial_for_generation` has returned. -/
def polled (s : Session) ( is_partial is_endpoint : Bool) (partial_gen : ℕ) : Session :=
  if is_partial ∧ partial_gen = s.current_generation ∧ partial_gen = s.asr_active_gen then
    { s with asr_out := AsrOut.sending_partial partial_gen is_endpoint }
  else s.endpoint is_endpoint partial_gen

/-- The turn is over: its deadline has passed, or the manager has gone idle by itself. -/
def drop_turn (s : Session) : Session :=
  { s.clear_endpoint.clear_asr_prepare_state with asr_active := false }

/-- `finalize_with_status` has returned. -/
def finalized (s : Session) (finalize_gen : ℕ) (accepted idle : Bool) : Session :=
  if accepted then
    if s.asr_active_gen = finalize_gen then
      { s.clear_asr_prepare_state with asr_active := false, asr_out := .sending }
    else { s with asr_out := .sending }
  else if idle then { s.drop_turn with asr_out := .head }
  else { s with asr_out := .head }

end Session

inductive Action where
  /-- The dispatcher receives a frame. -/
  | frame (f : Frame)
  /-- The dispatcher's `send_json` returns. -/
  | sent
  /-- The dispatcher has the coordinator and calls the manager. -/
  | enter
  /-- `on_speech_start` raises the current generation. -/
  | raise_generation (new_gen : ℕ)
  /-- The dispatcher's call of the manager returns; `preroll`: there is preroll to replay. -/
  | returns (preroll : Bool)
  /-- `on_speech_start` raises `ASRSessionUnavailable`. -/
  | unavailable
  | dispatcher_ends
  /-- `asr_out_task` starts a pass of its loop; `expired`: the turn deadline has passed. -/
  | pass (expired : Bool)
  | turn_cancelled
  | out_sent
  | out_enter
  /-- `get_partial_for_generation` reads the generation of the stream it polls. -/
  | poll_reads
  | poll_returns ( is_partial is_endpoint : Bool)
  | poll_fails
  | prepared
  | finalize_returns (accepted idle : Bool)
  | asr_out_ends
  | prepare_done (task : ℕ)
  | elsewhere_enters
  | elsewhere_leaves
  deriving DecidableEq

namespace Session

/-- The dispatcher's `enter`: where the call it makes leaves it. -/
def entered : Dispatcher → Option Dispatcher
  | .opening_lock site event => some (.opening site event)
  | .preroll_lock event => some (.preroll event)
  | .accept_lock event => some (.accepting event)
  | .cancel_lock => some .cancelling
  | _ => none

def leave (s : Session) (h : Holder) : Session := { s with coord := s.coord.release h }

def step (cfg : Config) (s : Session) : Action → Option Session
  | .frame f => if s.dispatcher = .receive then some (s.frame cfg f) else none
  | .sent =>
    match s.dispatcher with
    | .speech_started keeps =>
      -- a stream with endpoints of its own keeps its utterance
      if s.asr_active ∧ keeps then some (s.open_lazily cfg (.speech_start keeps))
      else some { s with dispatcher := .opening_lock .vad (.speech_start keeps) }
    | .unavailable site _ => some (s.skip_turn site)
    | .speech_ended => some { s with dispatcher := .receive }
    | _ => none
  | .enter =>
    match entered s.dispatcher, s.coord.acquire .dispatcher with
    | some d, some coord => some { s with dispatcher := d, coord := coord }
    | _, _ => none
  | .raise_generation new_gen =>
    match s.dispatcher with
    | .opening site event =>
      if s.current_generation < new_gen then
        some { s with
          current_generation := new_gen
          overtaken := true
          dispatcher := .opened site event new_gen }
      else none
    | _ => none
  | .returns preroll =>
    match s.dispatcher with
    | .opened .vad event new_gen =>
      if preroll then
        some { (s.leave .dispatcher).start_turn new_gen with dispatcher := .preroll_lock event }
      else some (((s.leave .dispatcher).start_turn new_gen).open_lazily cfg event)
    | .opened .lazily event new_gen =>
      some (((s.leave .dispatcher).start_turn new_gen).accept event)
    | .preroll event => some ((s.leave .dispatcher).open_lazily cfg event)
    | .accepting event => some ((s.leave .dispatcher).speech_end event)
    | .cancelling =>
      some { (s.leave .dispatcher).clear_asr_prepare_state with
        asr_active := false
        dispatcher := .receive }
    | _ => none
  | .unavailable =>
    match s.dispatcher with
    | .opening site _ => some { s.leave .dispatcher with dispatcher := .unavailable site false }
    | .opened site _ _ => some { s.leave .dispatcher with dispatcher := .unavailable site true }
    | _ => none
  | .dispatcher_ends =>
    some { s.leave .dispatcher with dispatcher := .ended s.dispatcher.raised }
  | .pass expired =>
    if s.asr_out = .head then
      if expired then
        if s.asr_active then some { s with asr_out := .timed_out } else none
      else some s.loop
    else none
  | .turn_cancelled =>
    if s.asr_out = .timed_out then some { s.drop_turn with asr_out := .sending } else none
  | .out_sent =>
    match s.asr_out with
    | AsrOut.sending_partial partial_gen is_endpoint => some (s.endpoint is_endpoint partial_gen)
    | .announcing belongs => some (s.fire belongs)
    | .sending => some { s with asr_out := .head }
    | _ => none
  | .out_enter =>
    match s.asr_out, s.coord.acquire .asr_out with
    | .poll_lock, some coord => some { s with coord := coord, asr_out := .polling }
    | .finalize_lock finalize_gen belongs, some coord =>
      some { s with
        coord := coord
        asr_out := .finalizing finalize_gen
        finalizes := s.finalizes ++ [(belongs, s.current_generation)] }
    | _, _ => none
  | .poll_reads =>
    if s.asr_out = .polling then
      some { s with asr_out := .polled s.current_generation, overtaken := false }
    else none
  | .poll_returns is_partial is_endpoint =>
    match s.asr_out with
    | .polled partial_gen => some ((s.leave .asr_out).polled is_partial is_endpoint partial_gen)
    | _ => none
  | .poll_fails =>
    match s.asr_out with
    | .polling | .polled _ => some ((s.leave .asr_out).endpoint false 0)
    | _ => none
  | .prepared =>
    match s.asr_out with
    | .preparing k finalize_gen belongs =>
      if s.prepares[k]? = some true then
        some { s with asr_out := .finalize_lock finalize_gen belongs }
      else none
    | _ => none
  | .finalize_returns accepted idle =>
    match s.asr_out with
    | .finalizing finalize_gen =>
      some ((s.leave .asr_out).finalized finalize_gen accepted idle)
    | _ => none
  | .asr_out_ends => some { s.leave .asr_out with asr_out := .ended }
  | .prepare_done k =>
    if s.prepares[k]? = some false then some { s with prepares := s.prepares.set k true }
    else none
  | .elsewhere_enters => (s.coord.acquire .elsewhere).map fun coord => { s with coord := coord }
  | .elsewhere_leaves => some (s.leave .elsewhere)

end Session

/-- One step of the session. -/
def Steps (cfg : Config) (s : Session) (a : Action) (t : Session) : Prop := s.step cfg a = some t

/-- From the opening of a session, the actions `as` can lead to `s`. -/
def Runs (cfg : Config) (coord : Coordinator) (as : List Action) (s : Session) : Prop :=
  Run (Steps cfg) (.init coord) as s

end LocalVoice.V2V.AsrTurns
