import LocalVoice.Lib.Run
import Mathlib.Data.List.NodupEquivFin
import Mathlib.Data.Nat.Notation

/-! `_TTSFramedStreamOwner` and `_framed_tts_stream` in `server/main.py`: the framed response reads the
    inner PCM generator through one task for each `__anext__`, and leaves the task that is still
    running to a close task, which drains the generator to its end. A step is a section of the
    response or of the close task between two awaits, or the end of an `__anext__`; a cancellation
    may wake the response at any of its awaits, whatever it waits for.

        response   at_header ─▶ at_pcm ⇄ next i ─▶ close_sleep ─▶ close_wait ─▶ ended
                                            └────▶ close_hold ──────────────────▲
        close task              starting ─▶ waiting i ─▶ reading ⟲ ─▶ ended -/

namespace LocalVoice.TTSStream
open LocalVoice.Lib

/-- How an `__anext__` of the inner generator ends. -/
inductive Outcome where
  | chunk (pcm : List UInt8)
  | stop
  | cancelled
  | error
  deriving DecidableEq

/-- Where the framed response is: suspended at a `yield`, in `next()` on task `i`, in `close()` at
    its `sleep(0)`, at its bounded wait or in its loop, or at an end. -/
inductive Framed where
  | at_header
  | at_pcm
  | next (i : ℕ)
  | close_sleep
  | close_wait
  | close_hold
  | ended
  deriving DecidableEq

/-- Where `_drain_to_terminal` is. -/
inductive Drain where
  | starting
  | waiting (i : ℕ)
  | reading
  | ended
  deriving DecidableEq

/-- The cancel callback, which may raise. -/
inductive Callback where | returns | raises
  deriving DecidableEq

/-- The owner, the response that uses it and the inner generator: the tasks of `next()` and how they
    ended, and the chunks that the generator put out since the first one. -/
structure Stream where
  tasks : List (Option Outcome)
  current_task : Option ℕ
  close_task : Option Drain
  cancel_requested : Bool
  cancels : ℕ
  registered : Bool
  framed : Framed
  delivered : List (List UInt8)
  produced : List (List UInt8)
  terminated : Bool
  deriving DecidableEq

namespace Stream

/-- The response at its first `yield`. -/
def init : Stream := ⟨[], none, none, false, 0, true, .at_header, [], [], false⟩

/-- The calls of `__anext__` that are in progress. -/
def in_progress (s : Stream) : ℕ :=
  s.tasks.count none + if s.close_task = some .reading then 1 else 0

/-- What the inner generator may do: once it has terminated it only stops. -/
def may_end (s : Stream) (o : Outcome) : Bool := !s.terminated || o == .stop

/-- The inner generator at the end of an `__anext__`. -/
def put_out (s : Stream) : Outcome → Stream
  | .chunk pcm => { s with produced := s.produced ++ [pcm] }
  | .stop | .cancelled | .error => { s with terminated := true }

/-- `if self._current_task is task: self._current_task = None`. -/
def clear (s : Stream) (i : ℕ) : Stream :=
  if s.current_task = some i then { s with current_task := none } else s

/-- The `finally` of `next()`. -/
def leave_next (s : Stream) (i : ℕ) : Stream :=
  if s.tasks[i]?.any Option.isSome then s.clear i else s

/-- `start_close`, and whether the callback raised in it. -/
def start_close (request_cancel : Option Callback) (s : Stream) : Stream × Bool :=
  let called := !s.cancel_requested && request_cancel.isSome
  let s := { s with
    cancel_requested := true
    cancels := if called then s.cancels + 1 else s.cancels }
  if called && request_cancel == some .raises then (s, true)
  else if s.close_task = none then ({ s with close_task := some .starting }, false)
  else (s, false)

/-- The head of the loop that ends `close()`. -/
def hold (s : Stream) : Stream :=
  { s with framed := if s.close_task = some .ended then .ended else .close_hold }

/-- `close()`, up to its first await. -/
def close (request_cancel : Option Callback) (s : Stream) : Stream :=
  let had_inflight := s.current_task.isSome
  match s.start_close request_cancel with
  | (s, true) => { s with framed := .ended }
  | (s, false) => if had_inflight then s.hold else { s with framed := .close_sleep }

/-- The close task goes on after an `__anext__` that ended: it drops a chunk and reads on. -/
def drain (s : Stream) : Outcome → Stream
  | .chunk _ => { s with close_task := some .reading }
  | .stop | .cancelled | .error => { s with close_task := some .ended, registered := false }

end Stream

/-- `resume` and `aclose` are the client's side of the response, `wake` the end of what it awaits. -/
inductive FrameStep where
  | resume
  | aclose
  | wake
  | cancel
  | timeout
  | task_end (i : ℕ) (o : Outcome)
  | drain_start
  | drain_wake
  | drain_read (o : Outcome)
  deriving DecidableEq

section
variable (request_cancel : Option Callback) (first_pcm : List UInt8)

/-- `_framed_tts_stream` and its owner. -/
def Stream.next (s : Stream) : FrameStep → Option Stream
  | .resume =>
    match s.framed with
    | .at_header => some { s with framed := .at_pcm, delivered := s.delivered ++ [first_pcm] }
    | .at_pcm => some { s with
        tasks := s.tasks ++ [none]
        current_task := some s.tasks.length
        framed := .next s.tasks.length }
    | _ => none
  | .aclose =>
    match s.framed with
    | .at_header | .at_pcm => some (s.close request_cancel)
    | _ => none
  | .wake =>
    match s.framed with
    | .next i =>
      match s.tasks[i]? with
      | some (some (.chunk pcm)) =>
        some { s.leave_next i with framed := .at_pcm, delivered := s.delivered ++ [pcm] }
      | some (some _) => some ((s.leave_next i).close request_cancel)
      | _ => none
    | .close_sleep =>
      some { s with framed := if s.close_task = some .ended then .ended else .close_wait }
    | .close_wait | .close_hold =>
      if s.close_task = some .ended then some { s with framed := .ended } else none
    | _ => none
  | .cancel =>
    match s.framed with
    | .next i => some ((s.leave_next i).close request_cancel)
    | .close_sleep | .close_wait => some { s with framed := .ended }
    | .close_hold => some s.hold
    | _ => none
  | .timeout => if s.framed = .close_wait then some { s with framed := .ended } else none
  | .task_end i o =>
    if s.tasks[i]? = some none ∧ s.may_end o = true then
      some (({ s with tasks := s.tasks.set i (some o) } : Stream).put_out o)
    else none
  | .drain_start =>
    if s.close_task = some .starting then
      match s.current_task with
      | none => some { s with close_task := some .reading }
      | some i =>
        match s.tasks[i]? with
        | some (some o) => some ((s.clear i).drain o)
        | _ => some { s with close_task := some (.waiting i) }
    else none
  | .drain_wake =>
    match s.close_task with
    | some (.waiting i) =>
      match s.tasks[i]? with
      | some (some o) => some ((s.clear i).drain o)
      | _ => none
    | _ => none
  | .drain_read o =>
    if s.close_task = some .reading ∧ s.may_end o = true then some ((s.put_out o).drain o)
    else none

/-- The steps of a framed stream. -/
abbrev Stream.Steps : Stream → FrameStep → Stream → Prop :=
  fun s a t => s.next request_cancel first_pcm a = some t

end

/-! A framed stream has one reader. The only task of `next()` that may be running is the current one,
    and the close task reads only when there is no current task; until something is closed, the
    response has put out all chunks but the one its task just ended with. -/

namespace Stream

/-- The chunk task `i` ended with, if it did. -/
def chunk_of (s : Stream) (i : ℕ) : List (List UInt8) :=
  match s.tasks[i]? with
  | some (some (.chunk pcm)) => [pcm]
  | _ => []

section
variable (first_pcm : List UInt8)

/-- What holds wherever the response and the close task are. -/
structure Ledger (s : Stream) : Prop where
  pending : ∀ i : ℕ, s.tasks[i]? = some none → s.current_task = some i
  inner : ∀ (i : ℕ) (o : Outcome), s.tasks[i]? = some (some o) → (∀ pcm, o ≠ .chunk pcm) →
     s.terminated = true
  sent : s.delivered <+: first_pcm :: s.produced
  asked : s.cancels ≤ if s.cancel_requested then 1 else 0
  registry : s.registered = false → s.terminated = true

/-- Nothing was closed yet. -/
def Opened (s : Stream) : Prop := s.close_task = none ∧ s.cancel_requested = false

structure Owned (s : Stream) : Prop extends Ledger first_pcm s where
  waiting : ∀ i, s.close_task = some (.waiting i) → s.current_task = some i
  alone : s.close_task = some .reading ∨ s.close_task = some .ended → s.current_task = none
  at_header : s.framed = .at_header →
    s.Opened ∧ s.current_task = none ∧ s.delivered = [] ∧ s.produced = []
  at_pcm : s.framed = .at_pcm →
    s.Opened ∧ s.current_task = none ∧ s.delivered = first_pcm :: s.produced
  next : ∀ i, s.framed = .next i →
    s.Opened ∧ s.current_task = some i ∧ first_pcm :: s.produced = s.delivered ++ s.chunk_of i

end

section
variable {request_cancel : Option Callback} {first_pcm : List UInt8} {s t : Stream} {i : ℕ}
  {o : Outcome}

/-! ### Places -/

/-- The response is past its reads. -/
def Closing (s : Stream) : Prop :=
  s.framed ≠ .at_header ∧ s.framed ≠ .at_pcm ∧ ∀ i, s.framed ≠ .next i

theorem Owned.closing (h : Owned first_pcm s) (hclosed : s.close_task ≠ none) : s.Closing :=
  ⟨fun hf => hclosed (h.at_header hf).1.1, fun hf => hclosed (h.at_pcm hf).1.1,
    fun i hf => hclosed (h.next i hf).1.1⟩

theorem owned_of_closing (h : Ledger first_pcm s) (hclosing : s.Closing)
    (hwaiting : ∀ i, s.close_task = some (.waiting i) → s.current_task = some i)
    (halone : s.close_task = some .reading ∨ s.close_task = some .ended → s.current_task = none) :
    Owned first_pcm s :=
  ⟨h, hwaiting, halone, fun hf => absurd hf hclosing.1, fun hf => absurd hf hclosing.2.1,
    fun i hf => absurd hf (hclosing.2.2 i)⟩

/-! ### The current task -/

/-- With the current task ended, none is running. -/
theorem clear_ledger (h : Ledger first_pcm s) (hdone : s.tasks[i]? = some (some o)) :
    Ledger first_pcm (s.clear i) := by
  unfold clear
  split
  · next hcur =>
    refine ⟨?_, h.inner, h.sent, h.asked, h.registry⟩
    intro j hj
    obtain rfl : i = j := Option.some.inj (hcur.symm.trans (h.pending j hj))
    rw [hdone] at hj
    cases hj
  · exact h

theorem leave_next_ledger (h : Ledger first_pcm s) : Ledger first_pcm (s.leave_next i) := by
  unfold leave_next
  split
  · next hdone =>
    obtain ⟨x, hx, hsome⟩ := (Option.any_eq_true _ _).1 hdone
    obtain ⟨o, rfl⟩ := Option.isSome_iff_exists.1 hsome
    exact clear_ledger h hx
  · exact h

theorem clear_fields (s : Stream) (i : ℕ) :
    (s.clear i).close_task = s.close_task ∧ (s.clear i).cancel_requested = s.cancel_requested ∧
      (s.clear i).framed = s.framed ∧ (s.clear i).delivered = s.delivered ∧
      (s.clear i).produced = s.produced ∧ (s.clear i).tasks = s.tasks ∧
      (s.clear i).terminated = s.terminated := by
  unfold clear
  split <;> simp

theorem leave_next_fields (s : Stream) (i : ℕ) :
    (s.leave_next i).close_task = s.close_task ∧
      (s.leave_next i).cancel_requested = s.cancel_requested ∧
      (s.leave_next i).delivered = s.delivered ∧ (s.leave_next i).produced = s.produced := by
  unfold leave_next
  split
  · obtain ⟨h1, h2, -, h3, h4, -⟩ := s.clear_fields i
    exact ⟨h1, h2, h3, h4⟩
  · exact ⟨rfl, rfl, rfl, rfl⟩

theorem Opened.leave_next (h : s.Opened) (i : ℕ) : (s.leave_next i).Opened := by
  obtain ⟨h1, h2, -⟩ := s.leave_next_fields i
  exact ⟨h1.trans h.1, h2.trans h.2⟩

theorem clear_current (h : s.current_task = some i) : (s.clear i).current_task = none := by
  simp [clear, h]

/-! ### The close -/

/-- The ledger is kept where the response, the close task and the callback's count move on. -/
theorem Ledger.move (h : Ledger first_pcm s) {c : ℕ} (hc : c ≤ 1) (d : Option Drain) (f : Framed) :
    Ledger first_pcm
      { s with cancel_requested := true, cancels := c, close_task := d, framed := f } :=
  ⟨h.pending, h.inner, h.sent, by simpa using hc, h.registry⟩

/-- From an open stream `close()` leaves a close task that is to start, or none if its callback
    raised. -/
theorem close_of_opened (request_cancel : Option Callback) (hopen : s.Opened) (hzero : s.cancels = 0) :
    ∃ c d f, c ≤ 1 ∧ (d = none ∨ d = some .starting) ∧
      (f = .ended ∨ f = .close_hold ∨ f = .close_sleep) ∧ s.close request_cancel =
        { s with cancel_requested := true, cancels := c, close_task := d, framed := f } := by
  obtain ⟨hclose, hreq⟩ := hopen
  have hplace : ∀ b : Bool, (if b then Framed.close_hold else .close_sleep) = .ended ∨
      (if b then Framed.close_hold else .close_sleep) = .close_hold ∨
      (if b then Framed.close_hold else .close_sleep) = .close_sleep := by decide
  rcases request_cancel with _ | _ | _
  · refine ⟨0, some .starting, _, by omega, Or.inr rfl, hplace s.current_task.isSome, ?_⟩
    cases hcur : s.current_task <;> simp [close, start_close, hold, hreq, hclose, hzero, hcur]
  · refine ⟨1, some .starting, _, by omega, Or.inr rfl, hplace s.current_task.isSome, ?_⟩
    cases hcur : s.current_task <;> simp [close, start_close, hold, hreq, hclose, hzero, hcur]
  · refine ⟨1, none, .ended, by omega, Or.inl rfl, Or.inl rfl, ?_⟩
    simp [close, start_close, hreq, hclose, hzero]

theorem close_owned (h : Ledger first_pcm s) (hopen : s.Opened) :
    Owned first_pcm (s.close request_cancel) := by
  obtain ⟨c, d, f, hc, hd, hf, heq⟩ :=
    close_of_opened request_cancel hopen (by simpa [hopen.2] using h.asked)
  rw [heq]
  refine owned_of_closing (h.move hc d f) ?_ ?_ ?_
  · rcases hf with rfl | rfl | rfl <;> simp [Closing]
  · rintro i (hi : d = _)
    rcases hd with rfl | rfl <;> cases hi
  · rintro (hi | hi : d = _ ∨ d = _)
    all_goals rcases hd with rfl | rfl <;> cases hi

/-! ### The end of a read -/

theorem put_out_fields (s : Stream) (o : Outcome) :
    (s.put_out o).tasks = s.tasks ∧ (s.put_out o).current_task = s.current_task ∧
      (s.put_out o).close_task = s.close_task ∧ (s.put_out o).framed = s.framed ∧
      (s.put_out o).cancel_requested = s.cancel_requested ∧ (s.put_out o).cancels = s.cancels ∧
      (s.put_out o).registered = s.registered ∧ (s.put_out o).delivered = s.delivered ∧
      s.produced <+: (s.put_out o).produced ∧
      (s.terminated = true → (s.put_out o).terminated = true) := by
  cases o <;> simp [put_out]

/-- What is not a chunk ends the generator. -/
theorem put_out_ends (s : Stream) (ho : ∀ pcm, o ≠ .chunk pcm) :
    (s.put_out o).terminated = true ∧ (s.put_out o).produced = s.produced := by
  cases o with
  | chunk pcm => exact absurd rfl (ho pcm)
  | stop | cancelled | error => exact ⟨rfl, rfl⟩

theorem put_out_ledger (h : Ledger first_pcm s) : Ledger first_pcm (s.put_out o) := by
  obtain ⟨htasks, hcur, -, -, hreq, hcancels, hreg, hdel, hprod, hterm⟩ := s.put_out_fields o
  refine ⟨?_, ?_, ?_, ?_, ?_⟩
  · rw [htasks, hcur]
    exact h.pending
  · rw [htasks]
    exact fun i o' ho' hne => hterm (h.inner i o' ho' hne)
  · rw [hdel]
    exact h.sent.trans ((List.prefix_cons_inj first_pcm).2 hprod)
  · rw [hcancels, hreq]
    exact h.asked
  · rw [hreg]
    exact fun hr => hterm (h.registry hr)

/-- The close task goes on with no task running. -/
theorem drain_owned (h : Ledger first_pcm s) (hclosing : s.Closing) (hcur : s.current_task = none)
    (hend : (∀ pcm, o ≠ .chunk pcm) → s.terminated = true) : Owned first_pcm (s.drain o) := by
  have hlast : (∀ pcm, o ≠ .chunk pcm) → Owned first_pcm
      { s with close_task := some .ended, registered := false } := fun ho =>
    owned_of_closing ⟨h.pending, h.inner, h.sent, h.asked, fun _ => hend ho⟩ hclosing
      (fun i hi => by cases hi) fun _ => hcur
  cases o with
  | chunk pcm =>
    exact owned_of_closing ⟨h.pending, h.inner, h.sent, h.asked, h.registry⟩ hclosing
      (fun i hi => by cases hi) fun _ => hcur
  | stop | cancelled | error => exact hlast fun pcm hp => by cases hp

/-- The close task goes on with the chunk or the end of the current task. -/
theorem settle_owned (h : Owned first_pcm s) (hclosed : s.close_task ≠ none)
    (hcur : s.current_task = some i) (hdone : s.tasks[i]? = some (some o)) :
    Owned first_pcm ((s.clear i).drain o) := by
  obtain ⟨-, -, hframed, -, -, -, hterm⟩ := s.clear_fields i
  refine drain_owned (clear_ledger h.toLedger hdone) ?_ (clear_current hcur) ?_
  · have hplace := h.closing hclosed
    rwa [Closing, ← hframed] at hplace
  · rw [hterm]
    exact h.inner i o hdone

/-! ### The steps -/

theorem resume_owned (h : Owned first_pcm s) (hst : s.next request_cancel first_pcm .resume = some t) :
    Owned first_pcm t := by
  simp only [Stream.next] at hst
  split at hst
  · next hf =>
    obtain ⟨hopen, hcur, hdel, hprod⟩ := h.at_header hf
    obtain rfl := Option.some.inj hst
    refine ⟨⟨h.pending, h.inner, ?_, h.asked, h.registry⟩, h.waiting, h.alone, ?_, ?_, ?_⟩
    · simp [hdel, hprod]
    · intro hf'
      cases hf'
    · exact fun _ => ⟨hopen, hcur, by simp [hdel, hprod]⟩
    · intro i hf'
      cases hf'
  · next hf =>
    obtain ⟨hopen, hcur, hdel⟩ := h.at_pcm hf
    obtain rfl := Option.some.inj hst
    -- no task was running, so the new one is the only one
    have hnone : ∀ i, s.tasks[i]? ≠ some none := fun i hi => by
      rw [h.pending i hi] at hcur
      cases hcur
    refine ⟨⟨?_, ?_, h.sent, h.asked, h.registry⟩, ?_, ?_, ?_, ?_, ?_⟩
    · intro i hi
      rcases Nat.lt_or_ge i s.tasks.length with hlt | hge
      · rw [List.getElem?_append_left hlt] at hi
        exact absurd hi (hnone i)
      · rw [List.getElem?_append_right hge] at hi
        obtain ⟨hlt, -⟩ := List.getElem?_eq_some_iff.1 hi
        rw [List.length_singleton] at hlt
        exact congrArg some (by omega)
    · intro i o hi
      rcases Nat.lt_or_ge i s.tasks.length with hlt | hge
      · rw [List.getElem?_append_left hlt] at hi
        exact h.inner i o hi
      · rw [List.getElem?_append_right hge, List.getElem?_singleton] at hi
        split at hi <;> cases hi
    · intro i hi
      exact absurd (hopen.1.symm.trans hi) (by simp)
    · rintro (hi | hi)
      all_goals exact absurd (hopen.1.symm.trans hi) (by simp)
    · intro hf'
      cases hf'
    · intro hf'
      cases hf'
    · intro i hf'
      obtain rfl := Framed.next.inj hf'
      exact ⟨hopen, rfl, by simp [chunk_of, hdel]⟩
  · cases hst

theorem wake_owned (h : Owned first_pcm s) (hst : s.next request_cancel first_pcm .wake = some t) :
    Owned first_pcm t := by
  simp only [Stream.next] at hst
  split at hst
  · next i hf =>
    obtain ⟨hopen, hcur, hprod⟩ := h.next i hf
    split at hst
    · next pcm hdone =>
      obtain rfl := Option.some.inj hst
      have hleave : s.leave_next i = { s with current_task := none } := by
        simp [leave_next, hdone, clear, hcur]
      have hl := leave_next_ledger (i := i) h.toLedger
      rw [hleave] at hl ⊢
      have hall : first_pcm :: s.produced = s.delivered ++ [pcm] := by
        simpa [chunk_of, hdone] using hprod
      refine ⟨⟨hl.pending, hl.inner, ?_, hl.asked, hl.registry⟩, ?_, fun _ => rfl, ?_, ?_, ?_⟩
      · exact hall ▸ List.prefix_rfl
      · intro j hj
        exact absurd (hopen.1.symm.trans hj) (by simp)
      · intro hf'
        cases hf'
      · exact fun _ => ⟨hopen, rfl, hall.symm⟩
      · intro j hf'
        cases hf'
    · next o hne hdone =>
      obtain rfl := Option.some.inj hst
      exact close_owned (leave_next_ledger h.toLedger) (hopen.leave_next i)
    · cases hst
  · next hf =>
    obtain rfl := Option.some.inj hst
    refine owned_of_closing ⟨h.pending, h.inner, h.sent, h.asked, h.registry⟩ ?_ h.waiting h.alone
    simp only [Closing]
    split <;> simp
  · split at hst
    · obtain rfl := Option.some.inj hst
      exact owned_of_closing ⟨h.pending, h.inner, h.sent, h.asked, h.registry⟩ (by simp [Closing])
        h.waiting h.alone
    · cases hst
  · split at hst
    · obtain rfl := Option.some.inj hst
      exact owned_of_closing ⟨h.pending, h.inner, h.sent, h.asked, h.registry⟩ (by simp [Closing])
        h.waiting h.alone
    · cases hst
  · cases hst

theorem cancel_owned (h : Owned first_pcm s) (hst : s.next request_cancel first_pcm .cancel = some t) :
    Owned first_pcm t := by
  simp only [Stream.next] at hst
  have hended : ∀ f : Framed, f = .ended ∨ f = .close_hold → Owned first_pcm { s with framed := f } := by
    intro f hf
    refine owned_of_closing ⟨h.pending, h.inner, h.sent, h.asked, h.registry⟩ ?_ h.waiting h.alone
    rcases hf with rfl | rfl <;> simp [Closing]
  split at hst
  · next i hf =>
    obtain rfl := Option.some.inj hst
    exact close_owned (leave_next_ledger h.toLedger) ((h.next i hf).1.leave_next i)
  · obtain rfl := Option.some.inj hst
    exact hended _ (Or.inl rfl)
  · obtain rfl := Option.some.inj hst
    exact hended _ (Or.inl rfl)
  · obtain rfl := Option.some.inj hst
    refine hended _ ?_
    split <;> simp
  · cases hst

/-- Only the task that ends is touched. -/
theorem task_end_owned (h : Owned first_pcm s)
    (hst : s.next request_cancel first_pcm (.task_end i o) = some t) : Owned first_pcm t := by
  obtain ⟨⟨hrun, -⟩, hst⟩ := Option.ite_none_right_eq_some.1 hst
  obtain rfl := Option.some.inj hst
  have hcur := h.pending i hrun
  have hlt : i < s.tasks.length := (List.getElem?_eq_some_iff.1 hrun).1
  set u : Stream := { s with tasks := s.tasks.set i (some o) } with hu
  have hdone : u.tasks[i]? = some (some o) := by simp [hu, hlt]
  have hother : ∀ j, j ≠ i → u.tasks[j]? = s.tasks[j]? := by
    intro j hj
    simp [hu, List.getElem?_set_ne (Ne.symm hj)]
  obtain ⟨htasks, hcur', hclose, hframed, hreq, hcancels, hreg, hdel, hprod, hterm⟩ :=
    u.put_out_fields o
  refine ⟨⟨?_, ?_, ?_, ?_, ?_⟩, ?_, ?_, ?_, ?_, ?_⟩
  · intro j hj
    rw [htasks] at hj
    rw [hcur']
    by_cases hji : j = i
    · exact hji ▸ hcur
    · exact h.pending j (hother j hji ▸ hj)
  · intro j o' hj ho'
    rw [htasks] at hj
    by_cases hji : j = i
    · obtain rfl : o = o' := by simpa [hji, hdone] using hj
      exact (u.put_out_ends ho').1
    · exact hterm (h.inner j o' (hother j hji ▸ hj) ho')
  · rw [hdel]
    exact h.sent.trans ((List.prefix_cons_inj first_pcm).2 hprod)
  · rw [hcancels, hreq]
    exact h.asked
  · rw [hreg]
    exact fun hr => hterm (h.registry hr)
  · rw [hclose, hcur']
    exact h.waiting
  · rw [hclose, hcur']
    exact h.alone
  · intro hf
    exact absurd ((h.at_header (hframed ▸ hf)).2.1.symm.trans hcur) (by simp)
  · intro hf
    exact absurd ((h.at_pcm (hframed ▸ hf)).2.1.symm.trans hcur) (by simp)
  · intro j hf
    obtain ⟨hopen, hj, hall⟩ := h.next j (hframed ▸ hf)
    obtain rfl : i = j := Option.some.inj (hcur.symm.trans hj)
    have hrest : first_pcm :: s.produced = s.delivered := by simpa [chunk_of, hrun] using hall
    refine ⟨⟨hclose.trans hopen.1, hreq.trans hopen.2⟩, hcur'.trans hcur, ?_⟩
    rw [hdel]
    simp only [chunk_of, htasks, hdone]
    cases o with
    | chunk pcm =>
      rw [put_out, ← List.cons_append]
      exact congrArg (· ++ [pcm]) hrest
    | stop | cancelled | error => exact hrest.trans (List.append_nil _).symm

theorem drain_start_owned (h : Owned first_pcm s)
    (hst : s.next request_cancel first_pcm .drain_start = some t) : Owned first_pcm t := by
  obtain ⟨hstart, hst⟩ := Option.ite_none_right_eq_some.1 hst
  have hclosed : s.close_task ≠ none := by simp [hstart]
  split at hst
  · next hcur =>
    obtain rfl := Option.some.inj hst
    exact owned_of_closing ⟨h.pending, h.inner, h.sent, h.asked, h.registry⟩ (h.closing hclosed)
      (fun i hi => by cases hi) fun _ => hcur
  · next i hcur =>
    split at hst
    · next o hdone =>
      obtain rfl := Option.some.inj hst
      exact settle_owned h hclosed hcur hdone
    · obtain rfl := Option.some.inj hst
      refine owned_of_closing ⟨h.pending, h.inner, h.sent, h.asked, h.registry⟩ (h.closing hclosed) ?_ ?_
      · intro j hj
        obtain rfl : i = j := by simpa using hj
        exact hcur
      · rintro (hi | hi) <;> cases hi

theorem drain_wake_owned (h : Owned first_pcm s)
    (hst : s.next request_cancel first_pcm .drain_wake = some t) : Owned first_pcm t := by
  simp only [Stream.next] at hst
  split at hst
  · next i hwait =>
    split at hst
    · next o hdone =>
      obtain rfl := Option.some.inj hst
      exact settle_owned h (by simp [hwait]) (h.waiting i hwait) hdone
    · cases hst
  · cases hst

theorem drain_read_owned (h : Owned first_pcm s)
    (hst : s.next request_cancel first_pcm (.drain_read o) = some t) : Owned first_pcm t := by
  obtain ⟨⟨hread, -⟩, hst⟩ := Option.ite_none_right_eq_some.1 hst
  obtain rfl := Option.some.inj hst
  obtain ⟨-, hcur, -, hframed, -⟩ := s.put_out_fields o
  refine drain_owned (put_out_ledger h.toLedger) ?_ ?_ fun ho => (s.put_out_ends ho).1
  · have hplace := h.closing (by simp [hread])
    rwa [Closing, ← hframed] at hplace
  · rw [hcur]
    exact h.alone (Or.inl hread)

/-- Every step keeps the one reader. -/
theorem next_owned {a : FrameStep} (h : Owned first_pcm s)
    (hst : s.next request_cancel first_pcm a = some t) : Owned first_pcm t := by
  cases a with
  | resume => exact resume_owned h hst
  | aclose =>
    simp only [Stream.next] at hst
    split at hst
    · next hf =>
      obtain rfl := Option.some.inj hst
      exact close_owned h.toLedger (h.at_header hf).1
    · next hf =>
      obtain rfl := Option.some.inj hst
      exact close_owned h.toLedger (h.at_pcm hf).1
    · cases hst
  | wake => exact wake_owned h hst
  | cancel => exact cancel_owned h hst
  | timeout =>
    obtain ⟨-, hst⟩ := Option.ite_none_right_eq_some.1 hst
    obtain rfl := Option.some.inj hst
    exact owned_of_closing ⟨h.pending, h.inner, h.sent, h.asked, h.registry⟩ (by simp [Closing])
      h.waiting h.alone
  | task_end i o => exact task_end_owned h hst
  | drain_start => exact drain_start_owned h hst
  | drain_wake => exact drain_wake_owned h hst
  | drain_read o => exact drain_read_owned h hst

/-! ### Runs -/

theorem init_owned (first_pcm : List UInt8) : Owned first_pcm init := by
  constructor <;> simp [init, Opened]
  constructor <;> simp

/-- At most one call is in progress. -/
theorem Owned.in_progress_le (h : Owned first_pcm s) : s.in_progress ≤ 1 := by
  unfold in_progress
  by_cases hrun : none ∈ s.tasks
  · obtain ⟨i, hi⟩ := List.mem_iff_getElem?.1 hrun
    have hcur := h.pending i hi
    have hread : s.close_task ≠ some .reading := by
      intro hr
      exact absurd ((h.alone (Or.inl hr)).symm.trans hcur) (by simp)
    have hone : s.tasks.count none ≤ 1 := by
      by_contra hlt
      have htwice : List.Duplicate none s.tasks :=
        List.duplicate_iff_sublist.2 (List.replicate_sublist_iff.2 (Nat.lt_of_not_le hlt))
      obtain ⟨n, m, hnm, hn, hm⟩ := List.duplicate_iff_exists_distinct_get.1 htwice
      have hn' := h.pending n (by rw [List.getElem?_eq_getElem n.2]; exact congrArg some hn.symm)
      have hm' := h.pending m (by rw [List.getElem?_eq_getElem m.2]; exact congrArg some hm.symm)
      have heq : n.1 = m.1 := Option.some.inj (hn'.symm.trans hm')
      omega
    simpa [hread] using hone
  · rw [List.count_eq_zero.2 hrun]
    split <;> omega

end

/-- In every run of a framed stream at most one `__anext__` is in progress, the client gets a prefix
    of what the generator puts out, the callback is called at most once, and the owner leaves the
    registry only when the generator has terminated. -/
theorem framed_one_reader (request_cancel : Option Callback) (first_pcm : List UInt8)
    {as : List FrameStep} {s : Stream} (h : Run (Steps request_cancel first_pcm) init as s) :
    s.in_progress ≤ 1 ∧ s.delivered <+: first_pcm :: s.produced ∧ s.cancels ≤ 1 ∧
      (s.registered = false → s.terminated = true) := by
  have howned : Owned first_pcm s :=
    Run.invariant (I := Owned first_pcm) (fun hi hst => next_owned hi hst) (init_owned first_pcm) h
  refine ⟨howned.in_progress_le, howned.sent, ?_, howned.registry⟩
  have hasked := howned.asked
  split at hasked <;> omega

/-- A response that is cancelled twice while its task is running; the close task drops a late chunk. -/
theorem framed_one_reader_cancelled : ∃ s, Run (Steps (some .returns) [1]) init [.resume, .resume,
      .cancel, .cancel, .drain_start, .task_end 0 (.chunk [2]), .drain_wake, .drain_read .stop,
      .wake] s ∧
    s.in_progress ≤ 1 ∧ s.delivered <+: [1] :: s.produced ∧ s.cancels ≤ 1 ∧
      (s.registered = false → s.terminated = true) := by
  obtain ⟨s, hrun, -⟩ := Run.of_replay_any (Stream.next (some .returns) [1]) init [.resume, .resume,
    .cancel, .cancel, .drain_start, .task_end 0 (.chunk [2]), .drain_wake, .drain_read .stop, .wake]
    (fun s => s.framed == .ended && !s.registered) (by decide +kernel)
  exact ⟨s, hrun, framed_one_reader _ _ hrun⟩

end Stream
end LocalVoice.TTSStream
