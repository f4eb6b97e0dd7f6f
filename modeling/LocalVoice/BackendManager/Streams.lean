import LocalVoice.BackendManager.Safety

/-! The streaming syntheses of `server/main.py` that take `BackendManager.acquire()`: the body of
    /tts/clone/stream, and `drain` for each sentence of a V2V session. The consumer is a coroutine
    that enters `acquire()` and leaves it in a `finally`; the work is done by an executor thread,
    which iterates `backend.generate_streaming` and hands its chunks over through a queue.

        acquiring ─▶ (unstarted ─▶) preparing ─▶ reading ─▶ leaving ─▶ (closing ─▶) ended
                          └─▶ dropped     └──(cancelled, disconnected)──▲

    The stages in parentheses are those of the clone stream, whose response body may never be
    started and whose session token is released after the lease. -/

namespace LocalVoice.BackendManager
open LocalVoice.Lib

/-- The clone stream or a V2V sentence. -/
inductive Synthesis where | clone | sentence
  deriving DecidableEq

/-- What the thread puts on the queue; `done` is the `None` of its `finally`. -/
inductive Item where | chunk | error | done
  deriving DecidableEq

/-- Where the job of the executor is: `left` once its loop over the backend is over. -/
inductive Worker where | unsubmitted | queued | iterating | left
  deriving DecidableEq

/-- The thread is in the backend or on its way into it. -/
def Worker.busy : Worker → Bool
  | .queued | .iterating => true
  | .unsubmitted | .left => false

/-- Where the consumer is. From `leaving` on it is in the `finally`, or goes there whatever happens;
    `dropped` is a response body that was never started. -/
inductive Consumer where
  | acquiring | unstarted | preparing | reading | leaving | closing | ended | dropped
  deriving DecidableEq

/-- Between `__aenter__` and `__aexit__` of `acquire()`. -/
def Consumer.holds : Consumer → Bool
  | .unstarted | .preparing | .reading | .leaving | .dropped => true
  | .acquiring | .closing | .ended => false

/-- A streaming synthesis, with the object it received and the calls of `__aexit__` and of
    `_release_session`. -/
structure Stream (β : Type) where
  synthesis : Synthesis
  consumer : Consumer
  backend : Option β
  worker : Worker
  queue : List Item
  stop_event : Bool
  lease_releases : ℕ
  session_releases : ℕ

section
variable {β ω : Type}

def Stream.new (β : Type) (k : Synthesis) : Stream β :=
  ⟨k, .acquiring, none, .unsubmitted, [], false, 0, 0⟩

/-- `__aenter__` returns `b`. The clone stream reads `backend.sample_rate`, which may raise, and
    returns its response. -/
def Stream.entered (s : Stream β) (b : β) (raises : Bool) : Stream β :=
  { s with
    backend := some b
    consumer := match s.synthesis with
      | .clone => if raises then .leaving else .unstarted
      | .sentence => .preparing }

/-- `__aenter__` raises the 503, or is cancelled. -/
def Stream.refused (s : Stream β) : Stream β :=
  match s.synthesis with
  | .clone => { s with consumer := .ended, session_releases := s.session_releases + 1 }
  | .sentence => { s with consumer := .ended }

/-- `__aexit__` is called. -/
def Stream.exited (s : Stream β) : Stream β :=
  { s with
    lease_releases := s.lease_releases + 1
    consumer := match s.synthesis with
      | .clone => .closing
      | .sentence => .ended }

/-- What happens to a synthesis away from the manager. -/
inductive StreamMove where
  | begin | drop | submit | read | abort | watchdog | set_stop | release_session
  | start | next | stops (raises : Bool)
  deriving DecidableEq

/-- What the thread queues after its loop; `_run` of the clone stream logs an exception. -/
def Synthesis.last : Synthesis → Bool → List Item
  | .sentence, true => [.error, .done]
  | .sentence, false | .clone, _ => [.done]

/-- `abort` is a cancellation, a disconnect or a failed send at an await or `yield` of the consumer:
    client gone, deadline, barge-in. Deadline and barge-in set the stop event too, which the thread
    of a sentence looks at when it has its next chunk. -/
def Stream.move (s : Stream β) : StreamMove → Option (Stream β)
  | .begin => if s.consumer = .unstarted then some { s with consumer := .preparing } else none
  | .drop => if s.consumer = .unstarted then some { s with consumer := .dropped } else none
  | .submit =>
    if s.consumer = .preparing then some { s with consumer := .reading, worker := .queued }
    else none
  | .read =>
    match s.consumer, s.queue with
    | .reading, .chunk :: rest => some { s with queue := rest }
    | .reading, .error :: rest | .reading, .done :: rest =>
      some { s with consumer := .leaving, queue := rest }
    | _, _ => none
  | .abort =>
    if s.consumer = .preparing ∨ s.consumer = .reading then some { s with consumer := .leaving }
    else none
  | .watchdog =>
    if s.consumer = .reading ∧ s.synthesis = .sentence then
      some { s with consumer := .leaving, stop_event := true }
    else none
  | .set_stop => if s.synthesis = .sentence then some { s with stop_event := true } else none
  | .release_session =>
    if s.consumer = .closing then
      some { s with consumer := .ended, session_releases := s.session_releases + 1 }
    else none
  | .start => if s.worker = .queued then some { s with worker := .iterating } else none
  | .next =>
    if s.worker = .iterating then
      if s.stop_event then some { s with worker := .left, queue := s.queue ++ [.done] }
      else some { s with queue := s.queue ++ [.chunk] }
    else none
  | .stops raises =>
    if s.worker = .iterating then
      some { s with worker := .left, queue := s.queue ++ s.synthesis.last raises }
    else none

/-- The request of a synthesis whose body is running. -/
def Stream.lease (s : Stream β) : Option (Request β) :=
  if s.consumer.holds then s.backend.map .inside else none

def held (streams : List (Stream β)) : Multiset (Request β) := ↑(streams.filterMap Stream.lease)

/-- A manager over the state of the profile loader, with its syntheses, numbered by arrival. -/
structure Streams (β ω : Type) where
  cfg : Config β
  world : ω
  streams : List (Stream β)

def Streams.init (ref : Option String) (w : ω) : Streams β ω := ⟨.init β ref, w, []⟩

inductive StreamAction (β : Type) where
  | manager (a : Action β)
  | arrive (k : Synthesis)
  | refuse (i : ℕ)
  | enter (i : ℕ) (raises : Bool)
  | move (i : ℕ) (m : StreamMove)
  | exit (i : ℕ)

variable [DecidableEq β]

/-- One step of a manager and the syntheses on it. A step of the manager may end the body of another
    request, not the one of a synthesis. -/
inductive StreamStep (sv : Services β ω) : Streams β ω → StreamAction β → Streams β ω → Prop where
  | manager (s : Streams β ω) {a : Action β} {c : Config β} {w : ω}
    (h : Step sv (s.cfg, s.world) a (c, w)) (hheld : held s.streams ≤ c.requests) :
    StreamStep sv s (.manager a) { s with cfg := c, world := w }
  | arrive (s : Streams β ω) (k : Synthesis) :
    StreamStep sv s (.arrive k) { s with
      cfg := { s.cfg with requests := .waiting ::ₘ s.cfg.requests }
      streams := s.streams ++ [.new β k] }
  | refuse (s : Streams β ω) {i : ℕ} {st : Stream β} {rest : Multiset (Request β)}
    (hi : s.streams[i]? = some st) (hst : st.consumer = .acquiring)
    (hr : s.cfg.requests = .waiting ::ₘ rest) :
    StreamStep sv s (.refuse i) { s with
      cfg := { s.cfg with requests := rest }
      streams := s.streams.set i st.refused }
  | enter (s : Streams β ω) {i : ℕ} {raises : Bool} {st : Stream β} {rest : Multiset (Request β)}
    {b : β} {m : Manager β} (hi : s.streams[i]? = some st) (hst : st.consumer = .acquiring)
    (hr : s.cfg.requests = .waiting ::ₘ rest) (h : s.cfg.mgr.enter = some (b, m)) :
    StreamStep sv s (.enter i raises) { s with
      cfg := { s.cfg with mgr := m, requests := .inside b ::ₘ rest }
      streams := s.streams.set i (st.entered b raises) }
  | move (s : Streams β ω) {i : ℕ} {m : StreamMove} {st st' : Stream β}
    (hi : s.streams[i]? = some st) (h : st.move m = some st') :
    StreamStep sv s (.move i m) { s with streams := s.streams.set i st' }
  | exit (s : Streams β ω) {i : ℕ} {st : Stream β} {rest : Multiset (Request β)} {b : β}
    (hi : s.streams[i]? = some st) (hst : st.consumer = .leaving) (hb : st.backend = some b)
    (hr : s.cfg.requests = .inside b ::ₘ rest) :
    StreamStep sv s (.exit i) { s with
      cfg := { s.cfg with requests := .leaving ::ₘ rest }
      streams := s.streams.set i st.exited }

/-- The condition on a step: the response body is started, and a consumer that has submitted its job
    leaves early, without the last item of its thread, only if the thread has left the backend. -/
def Waits (s : Streams β ω) : StreamAction β → Prop
  | .move _ .drop => False
  | .move i .abort | .move i .watchdog =>
    ∀ st, s.streams[i]? = some st → st.worker.busy = false
  | _ => True

/-- A stream step is a step of the manager or does not touch it. -/
theorem StreamStep.manager_step {sv : Services β ω} {s t : Streams β ω} {a : StreamAction β}
    (h : StreamStep sv s a t) :
    (t.cfg = s.cfg ∧ t.world = s.world) ∨
      ∃ c, Step sv (s.cfg, s.world) c (t.cfg, t.world) := by
  cases h with
  | manager h _ => exact .inr ⟨_, h⟩
  | arrive k => exact .inr ⟨_, .arrive _ _⟩
  | refuse _ _ hr => exact .inr ⟨_, .cancel_waiting _ _ hr⟩
  | enter _ _ hr h => exact .inr ⟨_, .enter _ _ hr h⟩
  | move _ _ => exact .inl ⟨rfl, rfl⟩
  | exit _ _ _ hr => exact .inr ⟨_, .finish _ _ hr⟩

end

end LocalVoice.BackendManager
