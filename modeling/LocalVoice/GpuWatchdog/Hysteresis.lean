import Mathlib.Data.Nat.Notation

/-! The cached health of `server/core/gpu_watchdog.py`: `_apply_check_result` over what the probes of
    `_run_loop` find, over any number of stops and starts. The status is kept while it is in doubt:

        ok ──(3 failures in a row)──▶ not ok ──(5 successes in a row)──▶ ok -/

namespace LocalVoice.GpuWatchdog

def fail_threshold : ℕ := 3
def recover_threshold : ℕ := 5

structure WatchdogStatus where
  ok : Bool
  reason : String
  consecutive_failures : ℕ
  consecutive_successes : ℕ
  checks_total : ℕ
  failures_total : ℕ

def WatchdogStatus.new : WatchdogStatus := ⟨true, "ok", 0, 0, 0, 0⟩

def apply_check_result (s : WatchdogStatus) (ok : Bool) (reason : String) : WatchdogStatus :=
  let s := { s with checks_total := s.checks_total + 1 }
  if ok then
    let s := { s with consecutive_successes := s.consecutive_successes + 1, consecutive_failures := 0 }
    if !s.ok && recover_threshold ≤ s.consecutive_successes then { s with ok := true, reason := "ok" } else s
  else
    let s := { s with failures_total := s.failures_total + 1, consecutive_successes := 0,
                      consecutive_failures := s.consecutive_failures + 1 }
    let s := if s.ok && fail_threshold ≤ s.consecutive_failures then { s with ok := false, reason := reason } else s
    if !s.ok then { s with reason := reason } else s

/-- The loop starts, or a probe is over: with a result, or with an exception. -/
inductive Event where
  | started
  | checked (ok : Bool) (reason : String)
  | raised

def step (s : WatchdogStatus) : Event → WatchdogStatus
  | .started => { s with reason := "ok" }
  | .checked ok reason => apply_check_result s ok reason
  | .raised => apply_check_result s false "probe_failed"

/-- The status after the events, the newest one first. -/
def run : List Event → WatchdogStatus
  | [] => .new
  | e :: es => step (run es) e

def Event.result : Event → Option Bool
  | .started => none
  | .checked ok _ => some ok
  | .raised => some false

/-- What the probes found. -/
def results (es : List Event) : List Bool := es.filterMap Event.result

/-- There were three failures in a row, and never five successes in a row since. -/
def Down (l : List Bool) : Prop :=
  ∃ since before, l = since ++ List.replicate 3 false ++ before ∧ ¬ List.replicate 5 true <:+: since

/-! ### Rows of results -/

section
variable {a b : Bool} {l : List Bool}

/-- A counter of the row at the front is raised, or cleared. -/
theorem row_cons {k : ℕ} (h : ∀ n, n ≤ k ↔ List.replicate n a <+: l) (n : ℕ) :
    n ≤ (if a = b then k + 1 else 0) ↔ List.replicate n a <+: b :: l := by
  cases n with
  | zero => simp
  | succ n =>
    rw [List.replicate_succ, List.cons_prefix_cons, ← h n]
    split <;> simp [*]

/-- A row is in front of an item of the other kind. -/
theorem row_front (hab : a ≠ b) {n : ℕ} {since : List Bool} (h : List.replicate n a <+: since ++ b :: l) :
    List.replicate n a <+: since := by
  induction n generalizing since with
  | zero => exact List.nil_prefix
  | succ n ih =>
    cases since with
    | nil => exact absurd (List.cons_prefix_cons.1 h).1 hab
    | cons c since =>
      obtain ⟨rfl, hrest⟩ := List.cons_prefix_cons.1 h
      exact List.cons_prefix_cons.2 ⟨rfl, ih hrest⟩

theorem down_failure : Down (false :: l) ↔ Down l ∨ List.replicate 2 false <+: l := by
  constructor
  · rintro ⟨since, before, hl, hsince⟩
    cases since with
    | nil => exact .inr ⟨before, (List.cons.inj hl).2.symm⟩
    | cons b since =>
      obtain ⟨-, rfl⟩ := List.cons.inj hl
      exact .inl ⟨since, before, rfl, fun h => hsince (List.infix_cons h)⟩
  · rintro (⟨since, before, rfl, hsince⟩ | ⟨before, rfl⟩)
    · refine ⟨false :: since, before, rfl, fun h => ?_⟩
      rcases List.infix_cons_iff.1 h with h | h
      · cases (List.cons_prefix_cons.1 h).1
      · exact hsince h
    · exact ⟨[], before, rfl, by simp⟩

theorem down_success : Down (true :: l) ↔ Down l ∧ ¬ List.replicate 4 true <+: l := by
  constructor
  · rintro ⟨since, before, hl, hsince⟩
    cases since with
    | nil => cases (List.cons.inj hl).1
    | cons b since =>
      obtain ⟨rfl, rfl⟩ := List.cons.inj hl
      refine ⟨⟨since, before, rfl, fun h => hsince (List.infix_cons h)⟩, fun h => hsince ?_⟩
      have hrow : List.replicate 4 true <+: since :=
        row_front (b := false) (l := [false, false] ++ before) (by decide) (by simpa using h)
      exact (List.cons_prefix_cons.2 ⟨rfl, hrow⟩ : List.replicate 5 true <+: true :: since).isInfix
  · rintro ⟨⟨since, before, rfl, hsince⟩, hfew⟩
    refine ⟨true :: since, before, rfl, fun h => ?_⟩
    rcases List.infix_cons_iff.1 h with h | h
    · rw [List.append_assoc] at hfew
      exact hfew ((List.cons_prefix_cons.1 h).2.trans (List.prefix_append _ _))
    · exact hsince h

end

/-! ### Checks -/

theorem check_cases (s : WatchdogStatus) (ok : Bool) (reason : String) :
    (apply_check_result s ok reason).consecutive_failures = (if false = ok then s.consecutive_failures + 1 else 0) ∧
    (apply_check_result s ok reason).consecutive_successes = (if true = ok then s.consecutive_successes + 1 else 0) ∧
    ((apply_check_result s ok reason).ok = false ↔ if ok then s.ok = false ∧ ¬ 4 ≤ s.consecutive_successes
      else s.ok = false ∨ 2 ≤ s.consecutive_failures) := by
  cases ok with
  | true =>
    simp only [apply_check_result, if_true, recover_threshold]
    cases hok : s.ok <;> by_cases hmany : 4 ≤ s.consecutive_successes <;> simp [hmany]
  | false =>
    simp only [apply_check_result, Bool.false_eq_true, if_false, fail_threshold]
    cases hok : s.ok <;> by_cases hmany : 2 ≤ s.consecutive_failures <;> simp [hmany]

/-- The counters count the rows at the front, and the status is not ok while it is down. -/
structure Follows (l : List Bool) (s : WatchdogStatus) : Prop where
  failures : ∀ n, n ≤ s.consecutive_failures ↔ List.replicate n false <+: l
  successes : ∀ n, n ≤ s.consecutive_successes ↔ List.replicate n true <+: l
  down : s.ok = false ↔ Down l

theorem Follows.check {l : List Bool} {s : WatchdogStatus} (h : Follows l s) (ok : Bool) (reason : String) :
    Follows (ok :: l) (apply_check_result s ok reason) := by
  obtain ⟨hfailures, hsuccesses, hok⟩ := check_cases s ok reason
  refine ⟨hfailures ▸ row_cons h.failures, hsuccesses ▸ row_cons h.successes, hok.trans ?_⟩
  cases ok with
  | true => rw [if_pos rfl, down_success, h.down, h.successes]
  | false => rw [if_neg Bool.false_ne_true, down_failure, h.down, h.failures]

theorem follows_run (es : List Event) : Follows (results es) (run es) := by
  induction es with
  | nil => constructor <;> simp [run, results, WatchdogStatus.new, Down]
  | cons e es ih =>
    cases e with
    | started => exact ⟨ih.failures, ih.successes, ih.down⟩
    | checked ok reason => exact ih.check ok reason
    | raised => exact ih.check false _

/-- Over any checks and restarts, the status is not ok exactly while there were three failures in a row with
    never five successes in a row since; an exception of a probe is a failure. -/
theorem not_ok_iff_down (es : List Event) : (run es).ok = false ↔ Down (results es) := (follows_run es).down

end LocalVoice.GpuWatchdog
