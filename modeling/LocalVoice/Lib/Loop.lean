import Mathlib.Logic.Basic

/-! Tasks of an event loop that run a `while` loop. A task is suspended at an await; a cancellation
    is delivered there, as an exception, when the task next runs. A `Loop` is a table: where the
    code goes from each await, for each way the await can end. `Loop.Ends` says that a cancellation
    delivered at an await is the end of the task. -/

namespace LocalVoice.Lib

/-- How an await ends. `cancelled` is the task's own cancellation, `child_cancelled` that of what is
    awaited. -/
inductive How where
  | finished
  | raised
  | timed_out
  | child_cancelled
  | cancelled
  deriving DecidableEq

inductive End where
  | returned
  | raised
  | cancelled
  deriving DecidableEq

/-- Where a task stops: at an await, or for good. -/
inductive Stop (P : Type) where
  | awaits (p : P)
  | ended (e : End)
  deriving DecidableEq

/-- Where the code after an await leads: to the head of the loop, or to a stop. -/
inductive Goto (P : Type) where
  | head
  | stop (st : Stop P)
  deriving DecidableEq

structure Loop (P : Type) where
  /-- The first stops of a pass. -/
  pass : List (Stop P)
  /-- The flag is the condition of the `while`. -/
  after : Bool → P → How → List (Goto P)

/-- A task of the event loop; `cancelled`: a cancellation is to be delivered. -/
inductive AsyncTask (P : Type) where
  | awaiting (p : P) (cancelled : Bool)
  | ended (e : End)
  deriving DecidableEq

variable {P : Type}

namespace AsyncTask

def stopped : Stop P → AsyncTask P
  | .awaits p => .awaiting p false
  | .ended e => .ended e

/-- `if not t.done(): t.cancel()`. -/
def cancel : AsyncTask P → AsyncTask P
  | .awaiting p _ => .awaiting p true
  | .ended e => .ended e

/-- Ended, or with its cancellation under way. -/
def ending : AsyncTask P → Bool
  | .awaiting _ cancelled => cancelled
  | .ended _ => true

def ended_in (p : End → Bool) : AsyncTask P → Bool
  | .awaiting _ _ => false
  | .ended e => p e

end AsyncTask

namespace Loop

/-- The next stops of a task that runs on from an await, each with whether a pass is begun. -/
def leads (L : Loop P) (on : Bool) (p : P) (how : How) : List (Bool × Stop P) :=
  (L.after on p how).flatMap fun
    | .head => if on then L.pass.map (true, ·) else [(false, .ended .returned)]
    | .stop st => [(false, st)]

def resume [DecidableEq P] (L : Loop P) (on : Bool) (how : How) (begins : Bool) (st : Stop P) :
    AsyncTask P → Option (AsyncTask P)
  | .awaiting p cancelled =>
    if cancelled = decide (how = .cancelled) ∧ (begins, st) ∈ L.leads on p how then
      some (.stopped st)
    else none
  | .ended _ => none

/-- A cancellation delivered at `p` ends the task. -/
def Ends (L : Loop P) (on : Bool) (p : P) : Prop :=
  ∀ x ∈ L.leads on p .cancelled, x.1 = false ∧ ∃ e, x.2 = .ended e

end Loop

section
variable {L : Loop P} {on begins : Bool} {how : How} {st : Stop P} {t t' : AsyncTask P} {p : P}

theorem AsyncTask.ending_of_cancel {o : Option (AsyncTask P)} (h : o.map .cancel = some t) :
    t.ending = true := by
  obtain ⟨u, -, rfl⟩ := Option.map_eq_some_iff.1 h
  cases u <;> rfl

theorem Loop.resume_cases [DecidableEq P] (h : L.resume on how begins st t = some t') :
    ∃ p, t = .awaiting p (decide (how = .cancelled)) ∧ (begins, st) ∈ L.leads on p how ∧
      t' = .stopped st := by
  cases t with
  | awaiting p cancelled =>
    simp only [resume] at h
    split at h
    · rename_i hc
      exact ⟨p, hc.1 ▸ rfl, hc.2, (Option.some.inj h).symm⟩
    · cases h
  | ended => cases h

/-- Code that lets a cancellation through. -/
theorem Loop.ends_of_after (h : L.after on p .cancelled = [.stop (.ended .cancelled)]) :
    L.Ends on p := by
  intro x hx
  rw [leads, h] at hx
  obtain rfl := List.mem_singleton.1 hx
  exact ⟨rfl, _, rfl⟩

/-- A cancellation that is swallowed: the task ends if the loop does. -/
theorem Loop.ends_of_head (h : L.after false p .cancelled = [.head]) : L.Ends false p := by
  intro x hx
  rw [leads, h] at hx
  obtain rfl := List.mem_singleton.1 hx
  exact ⟨rfl, _, rfl⟩

/-- A cancellation that is swallowed begins a pass if the loop goes on. -/
theorem Loop.begins_of_head (h : L.after true p .cancelled = [.head])
    (hx : (begins, st) ∈ L.leads true p .cancelled) : begins = true := by
  rw [leads, h] at hx
  obtain ⟨_, -, heq⟩ := List.mem_map.1 (List.mem_append.1 hx |>.resolve_right nofun)
  exact (Prod.mk.inj heq).1.symm

/-- A task on its way to its end ends where it is resumed, if its cancellation ends it there. -/
theorem Loop.resume_ending [DecidableEq P] (ht : t.ending = true)
    (hends : ∀ p, t = .awaiting p true → L.Ends on p)
    (h : L.resume on how begins st t = some t') : begins = false ∧ t'.ending = true := by
  obtain ⟨p, rfl, hmem, rfl⟩ := resume_cases h
  have hhow : how = .cancelled := of_decide_eq_true ht
  subst hhow
  obtain ⟨hbegins, e, he⟩ := hends p rfl _ hmem
  dsimp only at hbegins he
  subst hbegins he
  exact ⟨rfl, rfl⟩

end
end LocalVoice.Lib
