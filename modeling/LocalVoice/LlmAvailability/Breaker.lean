import Mathlib.Data.Int.Notation
import Mathlib.Data.List.DropRight

/-! The availability breaker of `agent/ovs_agent/plugins/llm_availability.py`: the loop that probes the
    LLM, the probes an operator forces, and the reports of the user's own requests drive one machine
    (T a success, F a failure, U an unknown result).

        HEALTHY ──F──▶ DEGRADED ──F⋯──▶ DOWN ──T──▶ RECOVERING ──T──▶ HEALTHY
                ◀──T──                       ◀──F──
        HEALTHY, DEGRADED, RECOVERING ──U⋯──▶ UNKNOWN ──T──▶ HEALTHY
                                                      ──F──▶ DEGRADED

    A report leaves the count of unknown results as it is, and the count of failures survives the way
    over RECOVERING to UNKNOWN; in runs where neither happens, the machine follows its evidence. -/

namespace LocalVoice.LlmAvailability

inductive AvailabilityState where | healthy | degraded | down | recovering | unknown
  deriving DecidableEq

structure Config where
  failures_to_down : ℤ
  unknowns_to_unknown_state : ℤ

/-- The payload of `on_llm_availability_change`. -/
structure Change where
  state : AvailabilityState
  last_ok_ts : Option ℕ
  consecutive_failures : ℕ
  deriving DecidableEq

/-- `changes` are the payloads that went out, the last one first. -/
structure Plugin where
  state : AvailabilityState
  consecutive_failures : ℕ
  last_ok_ts : Option ℕ
  consecutive_unknowns : ℕ
  changes : List Change
  deriving DecidableEq

def Plugin.init : Plugin := ⟨.healthy, 0, none, 0, []⟩

namespace Plugin
variable (cfg : Config) (p : Plugin)

def emit_change (prev : AvailabilityState) : Plugin :=
  if prev = p.state then p
  else { p with changes := ⟨p.state, p.last_ok_ts, p.consecutive_failures⟩ :: p.changes }

/-- The state machine on a result; `now` is the clock. -/
def advance (now : ℕ) : Bool → Plugin
  | true =>
    let q := { p with last_ok_ts := some now }
    (match p.state with
    | .healthy => { q with consecutive_failures := 0 }
    | .degraded => { q with state := .healthy, consecutive_failures := 0 }
    | .down => { q with state := .recovering } -- one success isn't enough
    | .recovering => { q with state := .healthy, consecutive_failures := 0 }
    | .unknown => { q with state := .healthy, consecutive_failures := 0 }).emit_change p.state
  | false =>
    let q := { p with consecutive_failures := p.consecutive_failures + 1 }
    (match p.state with
    | .healthy => { q with state := .degraded }
    | .degraded =>
      if cfg.failures_to_down ≤ (q.consecutive_failures : ℤ) then { q with state := .down } else q
    | .recovering => { q with state := .down }
    | .unknown => { q with state := .degraded }
    | .down => q).emit_change p.state

def maybe_enter_unknown : Plugin :=
  if (p.consecutive_unknowns : ℤ) < cfg.unknowns_to_unknown_state then p
  else if p.state = .unknown ∨ p.state = .down then p
  else ({ p with state := .unknown } : Plugin).emit_change p.state

/-- The accounting of a probe. -/
def probed (now : ℕ) : Option Bool → Plugin
  | none => ({ p with consecutive_unknowns := p.consecutive_unknowns + 1 } : Plugin).maybe_enter_unknown cfg
  | some ok => ({ p with consecutive_unknowns := 0 } : Plugin).advance cfg now ok

/-- One turn of the loop in `run`. -/
def run_once (now : ℕ) (result : Option Bool) : Plugin := p.probed cfg now result

def force_probe (now : ℕ) (result : Option Bool) : Plugin := p.probed cfg now result

def report_request_failure (now : ℕ) : Plugin := p.advance cfg now false

def report_request_success (now : ℕ) : Plugin := p.advance cfg now true

end Plugin

/-! ### Runs -/

inductive Event where
  | run_once (now : ℕ) (result : Option Bool)
  | force_probe (now : ℕ) (result : Option Bool)
  | report_request_failure (now : ℕ)
  | report_request_success (now : ℕ)
  deriving DecidableEq

namespace Event

/-- What the event says about the LLM. -/
def verdict : Event → Option Bool
  | run_once _ result | force_probe _ result => result
  | report_request_failure _ => some false
  | report_request_success _ => some true

def succeeds (a : Event) : Bool := a.verdict == some true

def fails (a : Event) : Bool := a.verdict == some false

def is_unknown (a : Event) : Bool := a.verdict == none

/-- A report of a request of the user. -/
def reported : Event → Bool
  | run_once .. | force_probe .. => false
  | report_request_failure _ | report_request_success _ => true

end Event

def Plugin.step (cfg : Config) (p : Plugin) : Event → Plugin
  | .run_once now result => p.run_once cfg now result
  | .force_probe now result => p.force_probe cfg now result
  | .report_request_failure now => p.report_request_failure cfg now
  | .report_request_success now => p.report_request_success cfg now

/-- The plugin after these events. -/
def after (cfg : Config) (h : List Event) : Plugin := h.foldl (Plugin.step cfg) .init

/-- The unknown results since the last concrete one. -/
def unknowns (h : List Event) : ℕ := (h.rtakeWhile Event.is_unknown).length

/-- The failures since the last success. -/
def failures (h : List Event) : ℕ := (h.rtakeWhile fun a => !a.succeeds).countP Event.fails

/-- A report comes when no unknown result is counted, and an unknown result in RECOVERING is not the one
    that reaches the threshold. -/
def steady (cfg : Config) (p : Plugin) (a : Event) : Prop :=
  (a.reported = true → p.consecutive_unknowns = 0) ∧
    (a.is_unknown = true → p.state = .recovering →
      (p.consecutive_unknowns + 1 : ℤ) < cfg.unknowns_to_unknown_state)

def Steady (cfg : Config) (h : List Event) : Prop :=
  ∀ g a, g ++ [a] <+: h → steady cfg (after cfg g) a

/-- The state after each of the events, and what they say. -/
structure Follows (cfg : Config) (h : List Event) : Prop where
  enters_down : ∀ g a, g ++ [a] <+: h → (after cfg g).state ≠ .down →
    (after cfg (g ++ [a])).state = .down → a.fails = true ∧ ((after cfg g).state = .recovering ∨
      (after cfg g).state = .degraded ∧ cfg.failures_to_down ≤ (failures (g ++ [a]) : ℤ))
  leaves_down : ∀ g a, g ++ [a] <+: h → (after cfg g).state = .down →
    (after cfg (g ++ [a])).state ≠ .down → (after cfg (g ++ [a])).state = .recovering
  recovers : ∀ g k a, g ++ k ++ [a] <+: h → (after cfg g).state = .down →
    (∀ f, f <+: k → (after cfg (g ++ f)).state ≠ .healthy) →
    (after cfg (g ++ k ++ [a])).state = .healthy → a.succeeds = true ∧ ∃ l b m, k = l ++ b :: m ∧
      b.succeeds = true ∧ ∀ c ∈ m, c.is_unknown = true
  enters_unknown : ∀ g a, g ++ [a] <+: h → (after cfg g).state ≠ .unknown →
    (after cfg (g ++ [a])).state = .unknown →
    (after cfg g).state ≠ .down ∧ cfg.unknowns_to_unknown_state ≤ (unknowns (g ++ [a]) : ℤ)
  healthy : ∀ g, g <+: h → (after cfg g).state = .healthy → (after cfg g).consecutive_failures = 0

/-! ### One event -/

section
variable {cfg : Config} {p : Plugin} {h g : List Event} {a : Event}

@[simp] theorem emit_state (prev : AvailabilityState) : (p.emit_change prev).state = p.state := by
  unfold Plugin.emit_change
  split <;> rfl

@[simp] theorem emit_failures (prev : AvailabilityState) :
    (p.emit_change prev).consecutive_failures = p.consecutive_failures := by
  unfold Plugin.emit_change
  split <;> rfl

@[simp] theorem emit_unknowns (prev : AvailabilityState) :
    (p.emit_change prev).consecutive_unknowns = p.consecutive_unknowns := by
  unfold Plugin.emit_change
  split <;> rfl

variable (cfg) in
/-- A success. -/
theorem advance_true (now : ℕ) : (p.advance cfg now true).consecutive_unknowns = p.consecutive_unknowns ∧
    (p.state = .down ∧ (p.advance cfg now true).state = .recovering ∨
      p.state ≠ .down ∧ (p.advance cfg now true).state = .healthy ∧
        (p.advance cfg now true).consecutive_failures = 0) := by
  cases hs : p.state <;> simp [Plugin.advance, hs]

variable (cfg) in
/-- A failure. -/
theorem advance_false (now : ℕ) :
    (p.advance cfg now false).consecutive_unknowns = p.consecutive_unknowns ∧
    (p.advance cfg now false).consecutive_failures = p.consecutive_failures + 1 ∧
    ((p.state = .down ∨ p.state = .recovering) ∧ (p.advance cfg now false).state = .down ∨
      p.state = .degraded ∧ cfg.failures_to_down ≤ (p.consecutive_failures + 1 : ℤ) ∧
        (p.advance cfg now false).state = .down ∨
      p.state ≠ .down ∧ p.state ≠ .recovering ∧ (p.advance cfg now false).state = .degraded) := by
  cases hs : p.state with
  | degraded =>
    by_cases hle : cfg.failures_to_down ≤ (p.consecutive_failures + 1 : ℤ) <;>
      simp [Plugin.advance, hs, hle]
  | healthy | down | recovering | unknown => simp [Plugin.advance, hs]

variable (cfg) in
/-- An unknown result. -/
theorem unknown_counted : (p.maybe_enter_unknown cfg).consecutive_unknowns = p.consecutive_unknowns ∧
    (p.maybe_enter_unknown cfg).consecutive_failures = p.consecutive_failures ∧
    ((p.maybe_enter_unknown cfg).state = p.state ∨ p.state ≠ .down ∧ p.state ≠ .unknown ∧
      cfg.unknowns_to_unknown_state ≤ (p.consecutive_unknowns : ℤ) ∧
        (p.maybe_enter_unknown cfg).state = .unknown) := by
  unfold Plugin.maybe_enter_unknown
  split
  · exact ⟨rfl, rfl, Or.inl rfl⟩
  · next hge =>
    split
    · exact ⟨rfl, rfl, Or.inl rfl⟩
    · next hother =>
      obtain ⟨hunknown, hdown⟩ := not_or.1 hother
      exact ⟨by simp, by simp, Or.inr ⟨hdown, hunknown, Int.not_lt.1 hge, by simp⟩⟩

/-- What an event does to the machine. -/
inductive Moves (cfg : Config) (p : Plugin) (a : Event) (q : Plugin) : Prop where
  | unknown (hv : a.verdict = none) (hu : q.consecutive_unknowns = p.consecutive_unknowns + 1)
      (hf : q.consecutive_failures = p.consecutive_failures)
      (hs : q.state = p.state ∨ p.state ≠ .down ∧ p.state ≠ .unknown ∧
        cfg.unknowns_to_unknown_state ≤ (p.consecutive_unknowns + 1 : ℤ) ∧ q.state = .unknown)
  | success (hv : a.verdict = some true)
      (hu : q.consecutive_unknowns = if a.reported then p.consecutive_unknowns else 0)
      (hs : p.state = .down ∧ q.state = .recovering ∨
        p.state ≠ .down ∧ q.state = .healthy ∧ q.consecutive_failures = 0)
  | failure (hv : a.verdict = some false)
      (hu : q.consecutive_unknowns = if a.reported then p.consecutive_unknowns else 0)
      (hf : q.consecutive_failures = p.consecutive_failures + 1)
      (hs : (p.state = .down ∨ p.state = .recovering) ∧ q.state = .down ∨
        p.state = .degraded ∧ cfg.failures_to_down ≤ (p.consecutive_failures + 1 : ℤ) ∧ q.state = .down ∨
        p.state ≠ .down ∧ p.state ≠ .recovering ∧ q.state = .degraded)

theorem advance_moves (now : ℕ) (ok : Bool) (hv : a.verdict = some ok) {p₀ : Plugin}
    (hs : p.state = p₀.state) (hf : p.consecutive_failures = p₀.consecutive_failures)
    (hu : p.consecutive_unknowns = if a.reported then p₀.consecutive_unknowns else 0) :
    Moves cfg p₀ a (p.advance cfg now ok) := by
  cases ok with
  | true =>
    obtain ⟨hkept, hstate⟩ := advance_true cfg (p := p) now
    rw [hs] at hstate
    exact .success hv (hkept.trans hu) hstate
  | false =>
    obtain ⟨hkept, hcount, hstate⟩ := advance_false cfg (p := p) now
    rw [hs, hf] at hstate
    rw [hf] at hcount
    exact .failure hv (hkept.trans hu) hcount hstate

theorem probed_moves (now : ℕ) (result : Option Bool) (hv : a.verdict = result)
    (hprobe : a.reported = false) : Moves cfg p a (p.probed cfg now result) := by
  cases result with
  | none =>
    obtain ⟨hu, hf, hs⟩ := unknown_counted cfg
      (p := { p with consecutive_unknowns := p.consecutive_unknowns + 1 })
    exact .unknown hv hu hf hs
  | some ok =>
    exact advance_moves now ok hv (p := { p with consecutive_unknowns := 0 }) rfl rfl (by simp [hprobe])

theorem step_moves (cfg : Config) (p : Plugin) (a : Event) : Moves cfg p a (p.step cfg a) := by
  cases a with
  | run_once now result => exact probed_moves now result rfl rfl
  | force_probe now result => exact probed_moves now result rfl rfl
  | report_request_failure now => exact advance_moves now false rfl rfl rfl rfl
  | report_request_success now => exact advance_moves now true rfl rfl rfl rfl

end

/-! ### Runs that follow the evidence -/

section
variable {cfg : Config} {h g k : List Event} {a : Event}

theorem after_concat : after cfg (h ++ [a]) = (after cfg h).step cfg a := by
  simp [after]

theorem after_moves (cfg : Config) (h : List Event) (a : Event) :
    Moves cfg (after cfg h) a (after cfg (h ++ [a])) := by
  rw [after_concat]
  exact step_moves cfg _ a

theorem unknowns_concat : unknowns (h ++ [a]) = if a.is_unknown then unknowns h + 1 else 0 := by
  unfold unknowns
  rw [List.rtakeWhile_concat]
  split <;> simp

theorem failures_concat : failures (h ++ [a]) =
    if a.succeeds then 0 else failures h + if a.fails then 1 else 0 := by
  unfold failures
  rw [List.rtakeWhile_concat]
  cases a.succeeds <;> simp [List.countP_append, List.countP_cons]

theorem Steady.front (hs : Steady cfg h) (hpre : g <+: h) : Steady cfg g :=
  fun f a hf => hs f a (hf.trans hpre)

/-- The counts are those of the evidence. -/
structure Counted (cfg : Config) (h : List Event) : Prop where
  unknowns : (after cfg h).consecutive_unknowns = unknowns h
  failures : (after cfg h).state ≠ .down → (after cfg h).state ≠ .recovering →
    (after cfg h).consecutive_failures = failures h
  healthy : (after cfg h).state = .healthy → (after cfg h).consecutive_failures = 0

theorem counted_nil : Counted cfg [] := ⟨rfl, fun _ _ => rfl, fun _ => rfl⟩

theorem counted_step (hc : Counted cfg h) (hsteady : steady cfg (after cfg h) a) :
    Counted cfg (h ++ [a]) := by
  obtain ⟨hreport, hrecovering⟩ := hsteady
  cases after_moves cfg h a with
  | unknown hv hu hf hs =>
    have hcount : failures (h ++ [a]) = failures h := by
      simp [failures_concat, Event.succeeds, Event.fails, hv]
    refine ⟨?_, fun hdown hrec => ?_, fun hhealthy => ?_⟩
    · simp [hu, hc.unknowns, unknowns_concat, Event.is_unknown, hv]
    · rw [hf, hcount]
      rcases hs with hs | ⟨hdown', -, hle, -⟩
      · exact hc.failures (hs ▸ hdown) (hs ▸ hrec)
      · refine hc.failures hdown' fun hin => ?_
        exact absurd (hrecovering (by simp [Event.is_unknown, hv]) hin) (Int.not_lt.2 hle)
    · rw [hf]
      rcases hs with hs | ⟨-, -, -, hs⟩
      · exact hc.healthy (hs ▸ hhealthy)
      · rw [hs] at hhealthy
        cases hhealthy
  | success hv hu hs =>
    refine ⟨?_, fun hdown hrec => ?_, fun hhealthy => ?_⟩
    · rw [hu, unknowns_concat]
      split
      · next hr => simp [hreport hr, Event.is_unknown, hv]
      · simp [Event.is_unknown, hv]
    · rcases hs with ⟨-, hs⟩ | ⟨-, -, hzero⟩
      · exact absurd hs hrec
      · simp [hzero, failures_concat, Event.succeeds, hv]
    · rcases hs with ⟨-, hs⟩ | ⟨-, -, hzero⟩
      · rw [hs] at hhealthy
        cases hhealthy
      · exact hzero
  | failure hv hu hf hs =>
    refine ⟨?_, fun hdown hrec => ?_, fun hhealthy => ?_⟩
    · rw [hu, unknowns_concat]
      split
      · next hr => simp [hreport hr, Event.is_unknown, hv]
      · simp [Event.is_unknown, hv]
    · rcases hs with ⟨-, hs⟩ | ⟨-, -, hs⟩ | ⟨hdown', hrec', -⟩
      · exact absurd hs hdown
      · exact absurd hs hdown
      · simp [hf, hc.failures hdown' hrec', failures_concat, Event.succeeds, Event.fails, hv]
    · rcases hs with ⟨-, hs⟩ | ⟨-, -, hs⟩ | ⟨-, -, hs⟩ <;> rw [hs] at hhealthy <;> cases hhealthy

theorem counted (h : List Event) (hsteady : Steady cfg h) : Counted cfg h := by
  induction h using List.reverseRecOn with
  | nil => exact counted_nil
  | append_singleton h a ih =>
    exact counted_step (ih (hsteady.front (List.prefix_append h [a]))) (hsteady h a (List.prefix_refl _))

/-- Since DOWN, and before HEALTHY: still DOWN, or RECOVERING, after a success with nothing but unknown
    results behind it. -/
theorem since_down (hdown : (after cfg g).state = .down) (hsteady : Steady cfg (g ++ k))
    (hnot : ∀ f, f <+: k → (after cfg (g ++ f)).state ≠ .healthy) :
    (after cfg (g ++ k)).state = .down ∨ (after cfg (g ++ k)).state = .recovering ∧
      ∃ l b m, k = l ++ b :: m ∧ b.succeeds = true ∧ ∀ c ∈ m, c.is_unknown = true := by
  induction k using List.reverseRecOn with
  | nil => exact Or.inl (by rwa [List.append_nil])
  | append_singleton k a ih =>
    have hlast := hnot (k ++ [a]) (List.prefix_refl _)
    rw [← List.append_assoc] at hsteady hlast ⊢
    have hbefore := ih (hsteady.front (List.prefix_append _ _))
      fun f hf => hnot f (hf.trans (List.prefix_append _ _))
    have hcond := hsteady (g ++ k) a (List.prefix_refl _)
    cases after_moves cfg (g ++ k) a with
    | unknown hv hu hf hs =>
      rcases hs with hs | ⟨hdown', -, hle, -⟩
      · rw [hs]
        refine hbefore.imp_right fun ⟨hrec, l, b, m, hk, hb, hm⟩ =>
          ⟨hrec, l, b, m ++ [a], by simp [hk], hb, ?_⟩
        intro c hc
        rcases List.mem_append.1 hc with hc | hc
        · exact hm c hc
        · rw [List.mem_singleton.1 hc]
          simp [Event.is_unknown, hv]
      · rcases hbefore with hin | ⟨hrec, -⟩
        · exact absurd hin hdown'
        · exact absurd (hcond.2 (by simp [Event.is_unknown, hv]) hrec) (Int.not_lt.2 hle)
    | success hv hu hs =>
      rcases hs with ⟨-, hs⟩ | ⟨-, hs, -⟩
      · exact Or.inr ⟨hs, k, a, [], rfl, by simp [Event.succeeds, hv], fun c hc => by simp at hc⟩
      · exact absurd hs hlast
    | failure hv hu hf hs =>
      rcases hs with ⟨-, hs⟩ | ⟨-, -, hs⟩ | ⟨hdown', hrec', -⟩
      · exact Or.inl hs
      · exact Or.inl hs
      · rcases hbefore with hin | ⟨hrec, -⟩
        · exact absurd hin hdown'
        · exact absurd hrec hrec'

/-- In a run that keeps the counts, the machine follows its evidence. -/
theorem breaker_follows (cfg : Config) (h : List Event) (hsteady : Steady cfg h) : Follows cfg h where
  enters_down := by
    intro g a hpre hnot hdown
    have hc := counted g (hsteady.front ((List.prefix_append g [a]).trans hpre))
    cases after_moves cfg g a with
    | unknown hv hu hf hs =>
      rcases hs with hs | ⟨-, -, -, hs⟩
      · exact absurd (hs ▸ hdown) hnot
      · rw [hs] at hdown
        cases hdown
    | success hv hu hs =>
      rcases hs with ⟨hin, -⟩ | ⟨-, hs, -⟩
      · exact absurd hin hnot
      · rw [hs] at hdown
        cases hdown
    | failure hv hu hf hs =>
      refine ⟨by simp [Event.fails, hv], ?_⟩
      rcases hs with ⟨hin | hin, -⟩ | ⟨hin, hle, -⟩ | ⟨-, -, hs⟩
      · exact absurd hin hnot
      · exact Or.inl hin
      · right
        have hcount : failures (g ++ [a]) = failures g + 1 := by
          simp [failures_concat, Event.succeeds, Event.fails, hv]
        have hkept : (after cfg g).consecutive_failures = failures g :=
          hc.failures hnot (by simp [hin])
        rw [hcount, ← hkept]
        exact ⟨hin, by exact_mod_cast hle⟩
      · rw [hs] at hdown
        cases hdown
  leaves_down := by
    intro g a _ hin hnot
    cases after_moves cfg g a with
    | unknown hv hu hf hs =>
      rcases hs with hs | ⟨hdown, -⟩
      · exact absurd (hs.trans hin) hnot
      · exact absurd hin hdown
    | success hv hu hs =>
      rcases hs with ⟨-, hs⟩ | ⟨hdown, -⟩
      · exact hs
      · exact absurd hin hdown
    | failure hv hu hf hs =>
      rcases hs with ⟨-, hs⟩ | ⟨-, -, hs⟩ | ⟨hdown, -⟩
      · exact absurd hs hnot
      · exact absurd hs hnot
      · exact absurd hin hdown
  recovers := by
    intro g k a hpre hdown hnot hhealthy
    have hsince := since_down hdown (hsteady.front ((List.prefix_append _ _).trans hpre)) hnot
    cases after_moves cfg (g ++ k) a with
    | unknown hv hu hf hs =>
      rcases hs with hs | ⟨-, -, -, hs⟩
      · exact absurd (hs ▸ hhealthy) (hnot k (List.prefix_refl _))
      · rw [hs] at hhealthy
        cases hhealthy
    | success hv hu hs =>
      refine ⟨by simp [Event.succeeds, hv], ?_⟩
      rcases hs with ⟨-, hs⟩ | ⟨hdown', -⟩
      · rw [hs] at hhealthy
        cases hhealthy
      · exact (hsince.resolve_left hdown').2
    | failure hv hu hf hs =>
      rcases hs with ⟨-, hs⟩ | ⟨-, -, hs⟩ | ⟨-, -, hs⟩ <;> rw [hs] at hhealthy <;> cases hhealthy
  enters_unknown := by
    intro g a hpre hnot hin
    have hc := counted g (hsteady.front ((List.prefix_append g [a]).trans hpre))
    cases after_moves cfg g a with
    | unknown hv hu hf hs =>
      rcases hs with hs | ⟨hdown, -, hle, -⟩
      · exact absurd (hs ▸ hin) hnot
      · refine ⟨hdown, ?_⟩
        have hcount : unknowns (g ++ [a]) = unknowns g + 1 := by
          simp [unknowns_concat, Event.is_unknown, hv]
        rw [hcount, ← hc.unknowns]
        exact_mod_cast hle
    | success hv hu hs =>
      rcases hs with ⟨-, hs⟩ | ⟨-, hs, -⟩ <;> rw [hs] at hin <;> cases hin
    | failure hv hu hf hs =>
      rcases hs with ⟨-, hs⟩ | ⟨-, -, hs⟩ | ⟨-, -, hs⟩ <;> rw [hs] at hin <;> cases hin
  healthy := fun g hpre => (counted g (hsteady.front hpre)).healthy

instance (p : Plugin) : Decidable (steady cfg p a) :=
  inferInstanceAs (Decidable ((_ → _) ∧ (_ → _ → _)))

theorem steady_of_all (hall : ∀ i (hi : i < h.length), steady cfg (after cfg (h.take i)) h[i]) :
    Steady cfg h := by
  rintro g a ⟨rest, rfl⟩
  simpa using hall g.length (by simp)

end

/-! ### Results the counters keep -/

/-- Three failures, an unknown result, and two successes. -/
def outage : List Event :=
  [.run_once 1 (some false), .report_request_failure 2, .run_once 3 (some false), .run_once 4 none,
    .force_probe 5 (some true), .report_request_success 6]

theorem breaker_follows_outage : (after ⟨3, 3⟩ (outage.take 3)).state = .down ∧
    (after ⟨3, 3⟩ outage).state = .healthy ∧ Follows ⟨3, 3⟩ outage :=
  ⟨by decide, by decide, breaker_follows ⟨3, 3⟩ outage (steady_of_all (by decide))⟩

/-- The request of the user succeeds between unknown results. -/
def answered_between : List Event :=
  [.run_once 1 none, .run_once 2 none, .report_request_success 3, .run_once 4 none]

/-- The network is lost while the LLM recovers, and two requests fail after that. -/
def lost_while_recovering : List Event :=
  [.run_once 1 (some false), .run_once 2 (some false), .run_once 3 (some false), .run_once 4 (some true),
    .run_once 5 none, .run_once 6 none, .run_once 7 none, .report_request_failure 8,
    .report_request_failure 9]

theorem evidence_miscounted :
    ¬ Follows ⟨3, 3⟩ answered_between ∧ ¬ Follows ⟨3, 3⟩ lost_while_recovering := by
  constructor
  · intro hf
    have henough := (hf.enters_unknown (answered_between.take 3) (.run_once 4 none) (by decide) (by decide)
      (by decide)).2
    exact absurd henough (by decide)
  · intro hf
    obtain ⟨-, hrec | ⟨-, henough⟩⟩ := hf.enters_down (lost_while_recovering.take 8)
      (.report_request_failure 9) (by decide) (by decide) (by decide)
    · exact absurd hrec (by decide)
    · exact absurd henough (by decide)

end LocalVoice.LlmAvailability
