import LocalVoice.Lib.Tasks
import LocalVoice.Lib.Run
import Mathlib.Data.Int.Notation

/-! The admission gate in front of the ASR inference, with the tasks that call `acquire()`. A step
    is a section of one task between two awaits, or a `cancel()` of a task; the event loop may take
    the steps in any order, and may resume a task any time after its future is done.

        acquire():  ──▶ inside ──leave──▶ ended
                    ──▶ waiting ──_wake_next──▶ granted ──resume──▶ inside
                    ──▶ rejected

    A cancelled waiter's future stays in the deque until the task resumes. -/

namespace LocalVoice.AsrInferenceGate
open LocalVoice.Lib

/-- What `__init__` lets through: at least one permit, and a bound on the queue or `None`. -/
structure Limits where
  concurrency : ℕ
  max_waiting : Option ℕ
  concurrency_pos : 1 ≤ concurrency

theorem toNat_pos_of_not_lt {concurrency : ℤ} (h : ¬concurrency < 1) : 1 ≤ concurrency.toNat := by
  omega

/-- The checks of `__init__`. -/
def Limits.check (concurrency : ℤ) (max_waiting : Option ℤ) : Except String Limits :=
  if h : concurrency < 1 then .error s!"concurrency must be >= 1, got {concurrency}"
  else
    match max_waiting with
    | none => .ok ⟨concurrency.toNat, none, toNat_pos_of_not_lt h⟩
    | some m =>
      if m < 0 then .error s!"max_waiting must be >= 0 or None, got {m}"
      else .ok ⟨concurrency.toNat, some m.toNat, toNat_pos_of_not_lt h⟩

/-- The future a waiter awaits. -/
inductive Future where | pending | result | cancelled
  deriving DecidableEq

/-- Where an `acquire()` call stands. `must_cancel` is set by a `cancel()` that finds the future
    done already: the task gets its `CancelledError` when it resumes. `rejected` carries the depth
    of the `InferenceQueueFull`. -/
inductive Call where
  | waiting (fut : Future) (must_cancel : Bool)
  | inside
  | rejected (depth : ℕ)
  | ended
  deriving DecidableEq

/-- The text of `InferenceQueueFull`. -/
def InferenceQueueFull (depth : ℕ) : String :=
  s!"ASR inference queue full (max_waiting={depth}); rejecting rather than queueing unboundedly"

/-- The gate and the calls made so far, numbered by arrival; `waiters` is the deque of futures, each
    named by its call. `admitted` is not in the code: the calls in the order they got a permit. -/
structure Gate where
  limits : Limits
  running : ℤ
  waiters : List ℕ
  total_acquired : ℕ
  total_rejected : ℕ
  max_observed_queue : ℕ
  calls : List Call
  admitted : List ℕ

/-- A new gate. -/
def Gate.init (limits : Limits) : Gate := ⟨limits, 0, [], 0, 0, 0, [], []⟩

/-- The loop of `_wake_next` on the deque: futures that are done are dropped, the first other one
    gets the permit; with nobody to give it to, the permit is free again. -/
def Gate.wake (s : Gate) : List ℕ → Gate
  | [] => { s with waiters := [], running := s.running - 1 }
  | i :: rest =>
    match s.calls[i]? with
    | some (.waiting .pending mc) =>
      { s with waiters := rest, calls := s.calls.set i (.waiting .result mc),
               admitted := s.admitted ++ [i] }
    | _ => s.wake rest

def Gate.wake_next (s : Gate) : Gate := s.wake s.waiters

/-- `max_waiting is not None and len(waiters) >= max_waiting`, with the depth that was exceeded. -/
def Gate.full (s : Gate) : Option ℕ := s.limits.max_waiting.filter (· ≤ s.waiters.length)

/-- `acquire()` up to its first suspension. -/
def Gate.arrive (s : Gate) : Gate :=
  if s.running < s.limits.concurrency then
    { s with running := s.running + 1, total_acquired := s.total_acquired + 1,
             calls := s.calls ++ [.inside], admitted := s.admitted ++ [s.calls.length] }
  else
    match s.full with
    | some depth =>
      { s with total_rejected := s.total_rejected + 1, calls := s.calls ++ [.rejected depth] }
    | none =>
      { s with waiters := s.waiters ++ [s.calls.length],
               max_observed_queue := max s.max_observed_queue (s.waiters.length + 1),
               calls := s.calls ++ [.waiting .pending false] }

/-- `task.cancel()`: a pending future is cancelled, a done one leaves the request on the task.
    Inside, the error is thrown into the body, which ends by `leave` or goes on. -/
def Gate.cancel (s : Gate) (i : ℕ) : Option Gate :=
  match s.calls[i]? with
  | some (.waiting .pending mc) => some { s with calls := s.calls.set i (.waiting .cancelled mc) }
  | some (.waiting fut _) => some { s with calls := s.calls.set i (.waiting fut true) }
  | some .inside => some s
  | _ => none

/-- The loop resumes a task whose future is done: it goes inside, or its `CancelledError` is handled
    by passing the permit on or by leaving the deque. -/
def Gate.resume (s : Gate) (i : ℕ) : Option Gate :=
  match s.calls[i]? with
  | some (.waiting .result false) =>
    some { s with total_acquired := s.total_acquired + 1, calls := s.calls.set i .inside }
  | some (.waiting .result true) => some { s with calls := s.calls.set i .ended }.wake_next
  | some (.waiting .cancelled _) =>
    some { s with waiters := s.waiters.erase i, calls := s.calls.set i .ended }
  | _ => none

/-- The body ends, by itself, by an exception or by a cancellation. -/
def Gate.leave (s : Gate) (i : ℕ) : Option Gate :=
  match s.calls[i]? with
  | some .inside => some { s with calls := s.calls.set i .ended }.wake_next
  | _ => none

inductive Event where
  | arrive
  | cancel (i : ℕ)
  | resume (i : ℕ)
  | leave (i : ℕ)
  deriving DecidableEq

def Gate.step (s : Gate) : Event → Option Gate
  | .arrive => some s.arrive
  | .cancel i => s.cancel i
  | .resume i => s.resume i
  | .leave i => s.leave i

/-- `Runs limits s`: some interleaving leads a new gate to `s`. -/
def Runs (limits : Limits) (es : List Event) (s : Gate) : Prop :=
  Run (fun s e t => Gate.step s e = some t) (Gate.init limits) es s

/-! Counting the calls that have the permit -/

/-- A call inside its body. -/
def Call.is_inside : Call → ℕ
  | .inside => 1
  | _ => 0

/-- A call that was given the permit and has not resumed. -/
def Call.granted : Call → ℕ
  | .waiting .result _ => 1
  | _ => 0

/-- A call that has a permit. -/
def Call.holds (c : Call) : ℕ := c.is_inside + c.granted

/-- A call that has returned, was refused or was cancelled. -/
def Call.finished : Call → Bool
  | .rejected _ | .ended => true
  | _ => false

@[simp] theorem Call.holds_inside : Call.inside.holds = 1 := rfl

@[simp] theorem Call.holds_result (mc : Bool) : (Call.waiting .result mc).holds = 1 := rfl

@[simp] theorem Call.holds_pending (mc : Bool) : (Call.waiting .pending mc).holds = 0 := rfl

@[simp] theorem Call.holds_cancelled (mc : Bool) : (Call.waiting .cancelled mc).holds = 0 := rfl

@[simp] theorem Call.holds_rejected (depth : ℕ) : (Call.rejected depth).holds = 0 := rfl

@[simp] theorem Call.holds_ended : Call.ended.holds = 0 := rfl

theorem Call.holds_of_finished {c : Call} (h : c.finished) : c.holds = 0 := by
  cases c with
  | waiting | inside => simp [finished] at h
  | rejected | ended => rfl

/-- A live waiter: its future is neither granted nor cancelled. -/
def Live (calls : List Call) (i : ℕ) : Prop := ∃ mc, calls[i]? = some (.waiting .pending mc)

theorem live_set {calls : List Call} {i j : ℕ} {c c' : Call} (h : calls[i]? = some c)
    (hc : ∀ mc, c' ≠ .waiting .pending mc) :
    Live (calls.set i c') j ↔ i ≠ j ∧ Live calls j := by
  simp only [Live, get_set_iff h]
  constructor
  · rintro ⟨mc, ⟨_, hmc⟩ | ⟨hne, hmc⟩⟩
    · exact absurd hmc (hc mc)
    · exact ⟨hne, mc, hmc⟩
  · rintro ⟨hne, mc, hmc⟩
    exact ⟨mc, .inr ⟨hne, hmc⟩⟩

theorem live_concat {calls : List Call} {j : ℕ} {c : Call} :
    Live (calls ++ [c]) j ↔ Live calls j ∨ j = calls.length ∧ ∃ mc, c = .waiting .pending mc := by
  simp only [Live, get_concat_iff, exists_or, exists_and_left]

/-- What `_wake_next` does: it gives the permit to the first live waiter, or frees it. -/
theorem Gate.wake_cases (s : Gate) (l : List ℕ) :
    (∃ dead i mc rest, l = dead ++ i :: rest ∧ (∀ j ∈ dead, ¬ Live s.calls j) ∧
      s.calls[i]? = some (.waiting .pending mc) ∧
      s.wake l = { s with waiters := rest, calls := s.calls.set i (.waiting .result mc),
                          admitted := s.admitted ++ [i] }) ∨
    ((∀ j ∈ l, ¬ Live s.calls j) ∧ s.wake l = { s with waiters := [], running := s.running - 1 }) := by
  induction l with
  | nil => exact .inr ⟨by simp, rfl⟩
  | cons i rest ih =>
    by_cases hi : Live s.calls i
    · obtain ⟨mc, hmc⟩ := hi
      refine .inl ⟨[], i, mc, rest, rfl, by simp, hmc, ?_⟩
      simp only [wake, hmc]
    · have hskip : s.wake (i :: rest) = s.wake rest := by
        rw [wake]
        split
        · next mc hmc => exact absurd ⟨mc, hmc⟩ hi
        · rfl
      rw [hskip]
      rcases ih with ⟨dead, k, mc, rest', rfl, hdead, hk, hwake⟩ | ⟨hdead, hwake⟩
      · refine .inl ⟨i :: dead, k, mc, rest', rfl, ?_, hk, hwake⟩
        intro j hj
        rcases List.mem_cons.1 hj with rfl | hj
        · exact hi
        · exact hdead j hj
      · refine .inr ⟨?_, hwake⟩
        intro j hj
        rcases List.mem_cons.1 hj with rfl | hj
        · exact hi
        · exact hdead j hj

end LocalVoice.AsrInferenceGate
