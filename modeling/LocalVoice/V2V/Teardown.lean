import LocalVoice.Lib.Loop
import LocalVoice.Lib.Run
import Mathlib.Data.Nat.Notation

/-! The end of a `/v2v/stream` session: the work tasks, the dispatcher and the handler that awaits
    them, from their creation to the release of the admission slot. The tables of the work tasks
    list their awaits in the order of the source; `client_closed` decides where the source asks for
    it, any other `if` is left open. A cancellation is raised at the await the task is suspended in,
    also in the calls of the ASR manager. Only `tts_out_task` has an `except CancelledError`: around
    the await of the current sentence, for barge-in, and a cancellation of the task ends up there
    as well. -/

namespace LocalVoice.V2V.Teardown
open LocalVoice.Lib

/-- The awaits of `asr_out_task`; `created` is before its first step. -/
inductive AsrAwait where
  | created
  /-- `asr_manager.cancel("turn_timeout")`. -/
  | turn_cancel
  | restart_worker
  | turn_error
  | turn_sleep
  | get_partial
  | send_partial
  | send_endpoint
  /-- `await prep_task`. -/
  | prepare
  | finalize
  | punctuation
  | embedding
  | send_final
  | sleep
  deriving DecidableEq

/-- The awaits of `tts_out_task`. -/
inductive TtsAwait where
  | created
  /-- `send_json` of the `tts_done` of a turn. -/
  | turn_done
  /-- `tts_q.get()`. -/
  | queue
  /-- `await asyncio.wait_for(task, ..)`. -/
  | sentence
  | deadline_error
  | session_done
  deriving DecidableEq

namespace AsrOut
open AsrAwait Goto Stop

/-- The end of a pass. -/
def tail : List (Stop AsrAwait) := [ended .returned, awaits sleep]

/-- From the final text on. -/
def enrich : List (Stop AsrAwait) := [awaits punctuation, awaits embedding, awaits send_final]

/-- From the test of `asr_active` under `endpoint_fired` on. -/
def fired : List (Stop AsrAwait) := [awaits prepare, awaits finalize] ++ enrich

/-- From the test of `endpoint_fired` on. -/
def polled : List (Stop AsrAwait) := awaits send_endpoint :: fired ++ tail

/-- After an await, apart from cancellations. -/
def goes_on (multi_utterance : Bool) : AsrAwait → How → List (Goto AsrAwait)
  -- the variable of the deadline may hold no number
  | created, .finished => [head, stop (ended .raised)]
  | turn_cancel, .finished => [stop (awaits turn_error)]
  | turn_cancel, .raised | turn_cancel, .timed_out =>
    [stop (awaits restart_worker), stop (awaits turn_error)]
  | restart_worker, .finished | restart_worker, .raised => [stop (awaits turn_error)]
  | turn_error, .finished | turn_error, .raised =>
    if multi_utterance then [stop (awaits turn_sleep), stop (ended .returned)]
    else [stop (ended .returned)]
  | turn_sleep, .finished => [head]
  | get_partial, .finished => stop (awaits send_partial) :: polled.map stop
  | get_partial, .raised => polled.map stop
  | send_partial, .finished => polled.map stop
  | send_endpoint, .finished => fired.map stop
  | prepare, .finished | prepare, .raised => [stop (awaits finalize)]
  -- a result that is not accepted: `continue`
  | finalize, .finished => head :: enrich.map stop
  | finalize, .raised => [stop (ended .raised)]
  | punctuation, .finished | punctuation, .raised =>
    [stop (awaits embedding), stop (awaits send_final)]
  | embedding, .finished | embedding, .raised => [stop (awaits send_final)]
  | send_final, .finished =>
    if multi_utterance then stop (ended .returned) :: tail.map stop else [stop (ended .returned)]
  | sleep, .finished => [head]
  | _, _ => []

end AsrOut

/-- No `try` of `asr_out_task` catches a `CancelledError`. -/
def asr_out_task (multi_utterance : Bool) : Loop AsrAwait where
  pass := .awaits .turn_cancel :: .awaits AsrAwait.get_partial :: AsrOut.polled
  after _ p how :=
    match how with
    | .cancelled | .child_cancelled => [.stop (.ended .cancelled)]
    | how => AsrOut.goes_on multi_utterance p how

namespace TtsOut
open TtsAwait Goto Stop

def after (on : Bool) : TtsAwait → How → List (Goto TtsAwait)
  | created, .finished => [head]
  | turn_done, .finished => [head]
  -- the variable of the deadline may hold no number
  | queue, .finished => [stop (awaits sentence), stop (ended .raised)]
  | queue, .timed_out => [head]
  | sentence, .finished => [head]
  | sentence, .raised => [stop (ended .raised)]
  -- `wait_for` has seen the drain's end, so that `await task` does not suspend
  | sentence, .timed_out => if on then [stop (awaits deadline_error)] else [head]
  -- barge-in, or the task's own cancellation
  | sentence, .child_cancelled | sentence, .cancelled => [head]
  | deadline_error, .finished | deadline_error, .raised => [head]
  | session_done, .finished => [stop (ended .returned)]
  | _, .cancelled => [stop (ended .cancelled)]
  | _, _ => []

end TtsOut

def tts_out_task (multi_utterance : Bool) : Loop TtsAwait where
  pass :=
    if multi_utterance then [.awaits .turn_done, .awaits .session_done, .awaits .queue]
    else [.awaits .session_done, .awaits .queue]
  after := TtsOut.after

inductive Dispatcher where
  | running
  | cancelled
  | ended
  deriving DecidableEq

/-- Where the handler is. -/
inductive Phase where
  /-- `await asyncio.gather(*work_tasks, return_exceptions=False)`. -/
  | gathering
  /-- In the `except Exception`, sending the error. -/
  | reporting
  /-- In the `finally`, at `await dispatcher_task`. -/
  | stopping
  /-- In the `finally`, at `await asyncio.gather(*work_tasks, return_exceptions=True)`. -/
  | joining
  /-- From the release of the admission slot on. -/
  | released
  deriving DecidableEq

structure Session where
  multi_utterance : Bool
  client_closed : Bool
  handler : Phase
  dispatcher : Dispatcher
  asr : Option (AsyncTask AsrAwait)
  tts : Option (AsyncTask TtsAwait)
  /-- Not in the source: the passes begun after the `finally` has cancelled the work tasks. -/
  late : ℕ
  deriving DecidableEq

/-- The tasks have been created. -/
def Session.start (multi_utterance asr_enabled tts_enabled : Bool) : Session :=
  ⟨multi_utterance, false, .gathering, .running,
    if asr_enabled then some (.awaiting .created false) else none,
    if tts_enabled then some (.awaiting .created false) else none, 0⟩

namespace Session

/-- `for t in work_tasks: if not t.done(): t.cancel()`. -/
def cancel_work (s : Session) : Session :=
  { s with asr := s.asr.map .cancel, tts := s.tts.map .cancel }

def join (s : Session) : Session := { s.cancel_work with handler := .joining }

/-- The `finally`, up to its first suspension. -/
def enter_finally (s : Session) : Session :=
  if s.dispatcher = .ended then s.join
  else { s with handler := .stopping, dispatcher := .cancelled }

/-- A work task has come to its end in this way. -/
def work_ended (s : Session) (e : End) : Bool := s.asr = some (.ended e) || s.tts = some (.ended e)

def all_work (s : Session) (p : End → Bool) : Bool :=
  s.asr.all (·.ended_in p) && s.tts.all (·.ended_in p)

/-- How a `gather` with `return_exceptions=False` can end: with all results, or with the first task
    that does not return. -/
def gathered (s : Session) : End → Bool
  | .returned => s.all_work (· = .returned)
  | e => s.work_ended e

/-- The work tasks have been cancelled by the `finally`, and a pass is begun. -/
def counts (s : Session) (begins : Bool) : ℕ := if begins && s.handler = .joining then 1 else 0

/-- `asr_out_task` has run on to `st`. The last final of a single-utterance session closes it. -/
def asr_moves (s : Session) (begins : Bool) (st : Stop AsrAwait) (t : AsyncTask AsrAwait) :
    Session :=
  { s with
    asr := some t
    late := s.late + s.counts begins
    client_closed := s.client_closed ||
      (s.asr = some (.awaiting .send_final false) && st = .ended .returned && !s.multi_utterance) }

def tts_moves (s : Session) (begins : Bool) (t : AsyncTask TtsAwait) : Session :=
  { s with tts := some t, late := s.late + s.counts begins }

end Session

inductive Event where
  /-- A send fails: `client_closed`. -/
  | send_fails
  /-- The dispatcher sees a disconnect, or no frame for too long. -/
  | disconnects
  /-- The dispatcher ends otherwise, or its cancellation is delivered. -/
  | dispatcher_ends
  /-- A work task runs on; whether it begins a pass, and where it stops. -/
  | asr (how : How) (begins : Bool) (st : Stop AsrAwait)
  | tts (how : How) (begins : Bool) (st : Stop TtsAwait)
  /-- The handler is cancelled. -/
  | handler_cancelled
  /-- The first `gather` ends. -/
  | gathered (e : End)
  /-- The error has been sent. -/
  | reported
  /-- The dispatcher has ended. -/
  | stopped
  /-- The second `gather` ends. -/
  | joined
  deriving DecidableEq

def step (s : Session) : Event → Option Session
  | .send_fails => some { s with client_closed := true }
  | .disconnects =>
    if s.dispatcher = .running then
      some { s.cancel_work with client_closed := true, dispatcher := .ended }
    else none
  | .dispatcher_ends =>
    if s.dispatcher = .ended then none else some { s with dispatcher := .ended }
  | .asr how begins st =>
    (s.asr.bind ((asr_out_task s.multi_utterance).resume (!s.client_closed) how begins st)).map
      (s.asr_moves begins st)
  | .tts how begins st =>
    (s.tts.bind ((tts_out_task s.multi_utterance).resume (!s.client_closed) how begins st)).map
      (s.tts_moves begins)
  | .handler_cancelled =>
    match s.handler with
    -- a `gather` hands its cancellation on to the tasks it waits for
    | .gathering | .joining => some s.cancel_work
    | .reporting => some s.enter_finally
    -- `await dispatcher_task`: swallowed
    | .stopping => some s
    | .released => none
  | .gathered e =>
    if s.handler = .gathering ∧ s.gathered e then
      -- an `Exception` is reported first, a `CancelledError` is not
      if e = .raised then some { s with handler := .reporting } else some s.enter_finally
    else none
  | .reported => if s.handler = .reporting then some s.enter_finally else none
  | .stopped =>
    if s.handler = .stopping ∧ s.dispatcher = .ended then some s.join else none
  | .joined =>
    if s.handler = .joining ∧ s.all_work fun _ => true then some { s with handler := .released }
    else none

abbrev Steps (s : Session) (a : Event) (t : Session) : Prop := step s a = some t

/-- No pass has been begun since the `finally` has cancelled the work tasks; while it waits for
    them, each has ended or has its cancellation under way. -/
structure Ending (s : Session) : Prop where
  late : s.late = 0
  asr : s.handler = .joining → ∀ t ∈ s.asr, t.ending = true
  tts : s.handler = .joining → ∀ t ∈ s.tts, t.ending = true

/-- The `except CancelledError` of `tts_out_task` swallows the cancellation by the `finally`, and
    the loop goes on. -/
def swallows (s : Session) : Event → Bool
  | .tts .cancelled _ _ =>
    s.handler = .joining && s.tts = some (.awaiting .sentence true) && !s.client_closed
  | _ => false

section
variable {s t : Session} {a : Event}

theorem asr_ends (multi_utterance on : Bool) (p : AsrAwait) :
    (asr_out_task multi_utterance).Ends on p := Loop.ends_of_after rfl

/-- A cancellation ends `tts_out_task` unless the current sentence is awaited and `client_closed`
    is not set. -/
theorem tts_ends (multi_utterance on : Bool) (p : TtsAwait) (h : p ≠ .sentence ∨ on = false) :
    (tts_out_task multi_utterance).Ends on p := by
  cases p with
  | sentence =>
    obtain rfl := h.resolve_left (· rfl)
    exact Loop.ends_of_head rfl
  | _ => exact Loop.ends_of_after rfl

/-- A step of the dispatcher or the handler: where the `finally` waits for the work tasks, they have
    just been cancelled, or nothing about them has changed. -/
def Handles (s t : Session) : Prop :=
  t.late = s.late ∧ (t.handler = .joining →
    t.asr = s.cancel_work.asr ∧ t.tts = s.cancel_work.tts ∨
      s.handler = .joining ∧ t.asr = s.asr ∧ t.tts = s.tts)

theorem Session.enter_finally_handles : Handles s s.enter_finally := by
  rw [Session.enter_finally]
  split
  · exact ⟨rfl, fun _ => .inl ⟨rfl, rfl⟩⟩
  · exact ⟨rfl, nofun⟩

/-- What a step can do: a work task runs on, or the dispatcher or the handler do something. -/
theorem step_cases (h : Steps s a t) :
    (∃ how begins st u u', a = .asr how begins st ∧ s.asr = some u ∧
      (asr_out_task s.multi_utterance).resume (!s.client_closed) how begins st u = some u' ∧
      t = s.asr_moves begins st u') ∨
    (∃ how begins st u u', a = .tts how begins st ∧ s.tts = some u ∧
      (tts_out_task s.multi_utterance).resume (!s.client_closed) how begins st u = some u' ∧
      t = s.tts_moves begins u') ∨
    swallows s a = false ∧ Handles s t := by
  cases a with
  | asr how begins st =>
    obtain ⟨u', hu', rfl⟩ := Option.map_eq_some_iff.1 h
    obtain ⟨u, hu, hres⟩ := Option.bind_eq_some_iff.1 hu'
    exact .inl ⟨how, begins, st, u, u', rfl, hu, hres, rfl⟩
  | tts how begins st =>
    obtain ⟨u', hu', rfl⟩ := Option.map_eq_some_iff.1 h
    obtain ⟨u, hu, hres⟩ := Option.bind_eq_some_iff.1 hu'
    exact .inr (.inl ⟨how, begins, st, u, u', rfl, hu, hres, rfl⟩)
  | send_fails =>
    obtain rfl := Option.some.inj h
    exact .inr (.inr ⟨rfl, rfl, fun hj => .inr ⟨hj, rfl, rfl⟩⟩)
  | disconnects =>
    obtain ⟨-, h⟩ := Option.ite_none_right_eq_some.1 h
    obtain rfl := Option.some.inj h
    exact .inr (.inr ⟨rfl, rfl, fun _ => .inl ⟨rfl, rfl⟩⟩)
  | dispatcher_ends =>
    obtain ⟨-, h⟩ := Option.ite_none_left_eq_some.1 h
    obtain rfl := Option.some.inj h
    exact .inr (.inr ⟨rfl, rfl, fun hj => .inr ⟨hj, rfl, rfl⟩⟩)
  | handler_cancelled =>
    refine .inr (.inr ⟨rfl, ?_⟩)
    simp only [Steps, step] at h
    split at h
    · obtain rfl := Option.some.inj h
      exact ⟨rfl, fun _ => .inl ⟨rfl, rfl⟩⟩
    · obtain rfl := Option.some.inj h
      exact ⟨rfl, fun _ => .inl ⟨rfl, rfl⟩⟩
    · obtain rfl := Option.some.inj h
      exact Session.enter_finally_handles
    · obtain rfl := Option.some.inj h
      exact ⟨rfl, fun hj => .inr ⟨hj, rfl, rfl⟩⟩
    · cases h
  | gathered e =>
    obtain ⟨-, h⟩ := Option.ite_none_right_eq_some.1 h
    refine .inr (.inr ⟨rfl, ?_⟩)
    split at h
    · obtain rfl := Option.some.inj h
      exact ⟨rfl, nofun⟩
    · obtain rfl := Option.some.inj h
      exact Session.enter_finally_handles
  | reported =>
    obtain ⟨-, h⟩ := Option.ite_none_right_eq_some.1 h
    obtain rfl := Option.some.inj h
    exact .inr (.inr ⟨rfl, Session.enter_finally_handles⟩)
  | stopped =>
    obtain ⟨-, h⟩ := Option.ite_none_right_eq_some.1 h
    obtain rfl := Option.some.inj h
    exact .inr (.inr ⟨rfl, rfl, fun _ => .inl ⟨rfl, rfl⟩⟩)
  | joined =>
    obtain ⟨-, h⟩ := Option.ite_none_right_eq_some.1 h
    obtain rfl := Option.some.inj h
    exact .inr (.inr ⟨rfl, rfl, nofun⟩)

theorem late_le (h : Steps s a t) : s.late ≤ t.late := by
  obtain ⟨_, _, _, _, _, -, -, -, rfl⟩ | ⟨_, _, _, _, _, -, -, -, rfl⟩ | ⟨-, hlate, -⟩ := step_cases h
  · exact Nat.le_add_right _ _
  · exact Nat.le_add_right _ _
  · exact Nat.le_of_eq hlate.symm

theorem Ending.handles (hs : Ending s) (h : Handles s t) : Ending t := by
  obtain ⟨hlate, hwork⟩ := h
  refine ⟨hlate.trans hs.late, fun hj u hu => ?_, fun hj u hu => ?_⟩
  · obtain ⟨hasr, -⟩ | ⟨hjs, hasr, -⟩ := hwork hj
    · exact AsyncTask.ending_of_cancel (hasr.symm.trans hu)
    · exact hs.asr hjs u (hasr ▸ hu)
  · obtain ⟨-, htts⟩ | ⟨hjs, -, htts⟩ := hwork hj
    · exact AsyncTask.ending_of_cancel (htts.symm.trans hu)
    · exact hs.tts hjs u (htts ▸ hu)

theorem counts_eq_zero {begins : Bool} (h : s.handler = .joining → begins = false) :
    s.counts begins = 0 := by
  refine if_neg fun hc => ?_
  obtain ⟨hbegins, hj⟩ := Bool.and_eq_true_iff.1 hc
  exact absurd (hbegins.symm.trans (h (of_decide_eq_true hj))) nofun

/-- What the work tasks do after the `finally` has cancelled them, unless it is swallowed. -/
theorem Ending.step (hs : Ending s) (h : Steps s a t) (ha : swallows s a = false) : Ending t := by
  obtain ⟨how, begins, st, u, u', rfl, hu, hres, rfl⟩ | ⟨how, begins, st, u, u', rfl, hu, hres, rfl⟩ |
    ⟨-, hh⟩ := step_cases h
  · have hend (hj : s.handler = .joining) : begins = false ∧ u'.ending = true :=
      Loop.resume_ending (hs.asr hj u hu) (fun p _ => asr_ends _ _ p) hres
    refine ⟨?_, fun hj v hv => ?_, hs.tts⟩
    · exact (congrArg (s.late + ·) (counts_eq_zero fun hj => (hend hj).1)).trans hs.late
    · obtain rfl := Option.some.inj hv
      exact (hend hj).2
  · have hend (hj : s.handler = .joining) : begins = false ∧ u'.ending = true := by
      refine Loop.resume_ending (hs.tts hj u hu) (fun p hp => tts_ends _ _ p ?_) hres
      subst hp
      obtain ⟨_, hcancelled, -, -⟩ := Loop.resume_cases hres
      obtain rfl := of_decide_eq_true (AsyncTask.awaiting.inj hcancelled).2.symm
      simpa [swallows, hj, hu, or_iff_not_imp_left] using ha
    refine ⟨?_, hs.asr, fun hj v hv => ?_⟩
    · exact (congrArg (s.late + ·) (counts_eq_zero fun hj => (hend hj).1)).trans hs.late
    · obtain rfl := Option.some.inj hv
      exact (hend hj).2
  · exact hs.handles hh

/-- A cancellation that is swallowed begins a pass. -/
theorem swallows_late (h : Steps s a t) (ha : swallows s a = true) : t.late = s.late + 1 := by
  obtain ⟨_, _, _, _, _, rfl, -⟩ | ⟨how, begins, st, u, u', rfl, hu, hres, rfl⟩ | ⟨hno, -⟩ :=
    step_cases h
  · cases ha
  · obtain ⟨p, rfl, hmem, -⟩ := Loop.resume_cases hres
    cases how with
    | cancelled =>
      simp only [swallows, hu, Bool.and_eq_true, decide_eq_true_eq, Bool.not_eq_true'] at ha
      obtain ⟨⟨hj, hp⟩, hopen⟩ := ha
      obtain rfl := (AsyncTask.awaiting.inj (Option.some.inj hp)).1
      rw [hopen] at hmem
      obtain rfl := Loop.begins_of_head rfl hmem
      simp [Session.tts_moves, Session.counts, hj]
    | _ => cases ha
  · exact absurd (hno.symm.trans ha) nofun

theorem ending_start {multi_utterance asr_enabled tts_enabled : Bool} :
    Ending (.start multi_utterance asr_enabled tts_enabled) := ⟨rfl, nofun, nofun⟩

variable {multi_utterance asr_enabled tts_enabled : Bool} {as : List Event}

/-- As long as no pass has been begun late, the work tasks are ending. -/
theorem run_ending (h : Run Steps (.start multi_utterance asr_enabled tts_enabled) as s)
    (hlate : s.late = 0) : Ending s := by
  induction h with
  | nil => exact ending_start
  | @snoc _ s t a _ hst ih =>
    have hs : Ending s := ih (Nat.le_zero.1 (hlate ▸ late_le hst))
    cases ha : swallows s a with
    | false => exact hs.step hst ha
    | true => exact absurd ((swallows_late hst ha).symm.trans hlate) (Nat.succ_ne_zero _)

/-- `finalize` raises while `tts_out_task` waits for its queue. -/
def raised_waiting : List Event :=
  [.asr .finished true (.awaits .prepare), .asr .finished false (.awaits .finalize),
    .tts .finished true (.awaits .queue), .asr .raised false (.ended .raised),
    .gathered .raised, .reported, .dispatcher_ends, .stopped,
    .tts .cancelled false (.ended .cancelled)]

/-- `finalize` raises while `tts_out_task` awaits the current sentence. -/
def raised_speaking : List Event :=
  [.asr .finished true (.awaits .prepare), .asr .finished false (.awaits .finalize),
    .tts .finished true (.awaits .queue), .tts .finished false (.awaits .sentence),
    .asr .raised false (.ended .raised), .gathered .raised, .reported, .dispatcher_ends, .stopped,
    .tts .cancelled true (.awaits .queue), .tts .timed_out true (.awaits .queue)]

end
end LocalVoice.V2V.Teardown
