import LocalVoice.Lib.Run
import Mathlib.Data.List.Basic
import Mathlib.Data.Nat.Notation

/-! `ModeManager` of `agent/ovs_agent/app_mode.py`. A call of `switch` has three awaits, between which any
    other call may go on:

        switch ──▶ exit of the old mode ──▶ current := new, enter ──▶ broadcast ──▶

    The hooks may suspend for as long as they like, and what they raise is logged and nothing else. -/

namespace LocalVoice.ModeManager
open LocalVoice.Lib

structure AppMode where
  name : String
  display_name : String
  icon : String
  deriving DecidableEq

/-- The payload of `on_mode_change`. -/
structure ModeChange where
  name : String
  display_name : String
  icon : String
  prev : Option String
  deriving DecidableEq

/-- What the modes and the plugins see: a hook starts, a hook is finished, a broadcast goes out. -/
inductive Hook where
  | enter (name : String)
  | entered (name : String)
  | exit (name : String)
  | exited (name : String)
  | mode_change (payload : ModeChange)
  deriving DecidableEq

/-- A call in its last two awaits. -/
structure Call where
  prev : Option AppMode
  next_mode : AppMode
  deriving DecidableEq

/-- `exiting` are the calls that await the exit of the first mode to enter the second; `entering` and
    `broadcasting` are in the order in which the awaits began. -/
structure Manager where
  current : Option AppMode
  exiting : List (AppMode × AppMode)
  entering : List Call
  broadcasting : List Call
  log : List Hook
  deriving DecidableEq

def Manager.init : Manager := ⟨none, [], [], [], []⟩

/-- A call, or the end of an await of a call in flight; the hook or the broadcast may have raised. -/
inductive Label where
  | switch (name : String)
  | start (default_name : String)
  | exited (i : ℕ) (raised : Bool)
  | entered (i : ℕ) (raised : Bool)
  | broadcast (i : ℕ) (raised : Bool)
  deriving DecidableEq

namespace Manager
variable (modes : List AppMode) (M : Manager)

/-- The new mode is current, and its `enter` begins. -/
def enter_mode (call : Call) : Manager :=
  { M with
    current := some call.next_mode
    entering := M.entering ++ [call]
    log := M.log ++ [.enter call.next_mode.name] }

/-- Up to the first await: a name that is not registered raises, and the current one returns. -/
def switch (name : String) : Manager :=
  match modes.find? fun m => m.name = name with
  | none => M
  | some next_mode =>
    match M.current with
    | none => M.enter_mode ⟨none, next_mode⟩
    | some prev =>
      if prev.name = name then M
      else { M with exiting := M.exiting ++ [(prev, next_mode)], log := M.log ++ [.exit prev.name] }

/-- Without any mode it raises; the first one stands in for a default that is not registered. -/
def start (default_name : String) : Manager :=
  if modes.any fun m => m.name = default_name then M.switch modes default_name
  else match modes with
  | [] => M
  | first :: _ => M.switch modes first.name

/-- The old mode's `exit` is finished. -/
def after_exit (i : ℕ) (prev next_mode : AppMode) : Manager :=
  ({ M with exiting := M.exiting.eraseIdx i, log := M.log ++ [.exited prev.name] } : Manager).enter_mode
    ⟨some prev, next_mode⟩

/-- The new mode's `enter` is finished, and the change is broadcast. -/
def after_enter (i : ℕ) (call : Call) : Manager :=
  { M with
    entering := M.entering.eraseIdx i
    broadcasting := M.broadcasting ++ [call]
    log := M.log ++ [.entered call.next_mode.name] ++ [.mode_change ⟨call.next_mode.name,
      call.next_mode.display_name, call.next_mode.icon, call.prev.map AppMode.name⟩] }

def step : Label → Option Manager
  | .switch name => some (M.switch modes name)
  | .start default_name => some (M.start modes default_name)
  | .exited i _ => M.exiting[i]?.map fun c => M.after_exit i c.1 c.2
  | .entered i _ => M.entering[i]?.map fun c => M.after_enter i c
  | .broadcast i _ =>
    if i < M.broadcasting.length then some { M with broadcasting := M.broadcasting.eraseIdx i } else none

end Manager

def step (modes : List AppMode) (M : Manager) (a : Label) (M' : Manager) : Prop := M.step modes a = some M'

/-! ### What the modes and the plugins are promised -/

/-- A call of the hook of this mode: `true` for `enter`. -/
def Hook.call (m : String) : Hook → Option Bool
  | .enter name => if name = m then some true else none
  | .exit name => if name = m then some false else none
  | _ => none

def Hook.change : Hook → Option String
  | .mode_change payload => some payload.name
  | _ => none

def calls (m : String) (log : List Hook) : List Bool := log.filterMap (Hook.call m)

def last_change (log : List Hook) : Option String := (log.filterMap Hook.change).getLast?

/-- `enter`, `exit`, `enter` and so on. -/
def Alternates (l : List Bool) : Prop := ∀ i b, l[i]? = some b → (b = true ↔ i % 2 = 0)

/-- The last call of a hook of this mode was `enter`. -/
def is_entered (m : String) (log : List Hook) : Prop := (calls m log).getLast? = some true

structure Pairs (M : Manager) : Prop where
  alternating : ∀ m, Alternates (calls m M.log)
  handed_over : ∀ front m back, M.log = front ++ .enter m :: back → (∀ p, Hook.enter p ∉ front) ∨
    ∃ before p between, front = before ++ .enter p :: between ∧ (∀ q, Hook.enter q ∉ between) ∧
      Hook.exited p ∈ between
  settled : M.exiting = [] → M.entering = [] → M.broadcasting = [] → M.log = [] ∨ ∃ c, M.current = some c ∧
    (∀ m, is_entered m M.log ↔ m = c.name) ∧ last_change M.log = some c.name

/-- A call begins to exit a mode when no other call is doing so, and the hooks are finished in the order
    in which the modes were entered. -/
def orderly (modes : List AppMode) (M : Manager) : Label → Prop
  | .switch name => M.exiting = [] ∨ M.switch modes name = M
  | .start default_name => M.exiting = [] ∨ M.start modes default_name = M
  | .entered i _ => i = 0
  | .exited .. | .broadcast .. => True

/-! ### The hooks one after the other -/

/-- Where the modes are: in none, in one, in its `exit`, or behind it. -/
inductive Stage where
  | idle
  | inside (m : String)
  | leaving (m : String)
  | left (m : String)
  deriving DecidableEq

inductive Hooks : List Hook → Stage → Prop where
  | nil : Hooks [] .idle
  | first {log m} (h : Hooks log .idle) : Hooks (log ++ [.enter m]) (.inside m)
  | exit {log m} (h : Hooks log (.inside m)) : Hooks (log ++ [.exit m]) (.leaving m)
  | exited {log m} (h : Hooks log (.leaving m)) : Hooks (log ++ [.exited m]) (.left m)
  | next {log p m} (h : Hooks log (.left p)) : Hooks (log ++ [.enter m]) (.inside m)
  | entered {log st m} (h : Hooks log st) : Hooks (log ++ [.entered m]) st
  | change {log st payload} (h : Hooks log st) : Hooks (log ++ [.mode_change payload]) st

section
variable {log : List Hook} {st : Stage} {m p : String} {l : List Bool}

theorem Alternates.concat (h : Alternates l) {b : Bool} (hb : b = true ↔ l.length % 2 = 0) :
    Alternates (l ++ [b]) := by
  intro i b' hi
  rcases Nat.lt_or_ge i l.length with hlt | hge
  · rw [List.getElem?_append_left hlt] at hi
    exact h i b' hi
  · rw [List.getElem?_append_right hge] at hi
    obtain ⟨hlt, rfl⟩ := List.getElem?_eq_some_iff.1 hi
    have : i = l.length := by
      simp only [List.length_singleton] at hlt
      omega
    simpa [this] using hb

theorem Alternates.last (h : Alternates l) : l.getLast? = some true ↔ l.length % 2 = 1 := by
  rw [List.getLast?_eq_getElem?]
  cases hlast : l[l.length - 1]? with
  | none =>
    have := List.getElem?_eq_none_iff.1 hlast
    simp
    omega
  | some b =>
    have hlt := (List.getElem?_eq_some_iff.1 hlast).1
    have := h _ b hlast
    simp only [Option.some.injEq]
    rw [this]
    omega

theorem calls_concat (h : Hook) : calls m (log ++ [h]) = calls m log ++ (h.call m).toList := by
  cases hcall : h.call m <;> simp [calls, List.filterMap_append, hcall]

/-- The hooks of one mode, up to this stage. -/
def Called (log : List Hook) (st : Stage) (m : String) : Prop :=
  Alternates (calls m log) ∧ ((calls m log).length % 2 = 1 ↔ st = .inside m)

theorem Called.enter (h : Called log st m) (hout : ∀ n, st ≠ .inside n) (n : String) :
    Called (log ++ [.enter n]) (.inside n) m := by
  have heven : (calls m log).length % 2 = 0 := by
    have := mt h.2.1 (hout m)
    omega
  unfold Called
  by_cases hn : n = m
  · have hcall : (Hook.enter n).call m = some true := if_pos hn
    rw [calls_concat, hcall, Option.toList_some, List.length_append, List.length_singleton, hn]
    exact ⟨h.1.concat (by simpa using heven), iff_of_true (by omega) rfl⟩
  · have hcall : (Hook.enter n).call m = none := if_neg hn
    rw [calls_concat, hcall, Option.toList_none, List.append_nil]
    exact ⟨h.1, iff_of_false (by omega) fun heq => hn (Stage.inside.inj heq)⟩

theorem Called.exit {n : String} (h : Called log (.inside n) m) :
    Called (log ++ [.exit n]) (.leaving n) m := by
  unfold Called
  by_cases hn : n = m
  · have hcall : (Hook.exit n).call m = some false := if_pos hn
    have hodd : (calls m log).length % 2 = 1 := h.2.2 (by rw [hn])
    rw [calls_concat, hcall, Option.toList_some, List.length_append, List.length_singleton]
    exact ⟨h.1.concat (by simp [hodd]), iff_of_false (by omega) fun heq => by cases heq⟩
  · have hcall : (Hook.exit n).call m = none := if_neg hn
    have heven := mt h.2.1 fun heq => hn (Stage.inside.inj heq)
    rw [calls_concat, hcall, Option.toList_none, List.append_nil]
    exact ⟨h.1, iff_of_false heven fun heq => by cases heq⟩

/-- What is no call leaves the mode in or out. -/
theorem Called.other {st' : Stage} {h' : Hook} (h : Called log st m) (hcall : h'.call m = none)
    (hst : st = .inside m ↔ st' = .inside m) : Called (log ++ [h']) st' m := by
  unfold Called
  rw [calls_concat, hcall, Option.toList_none, List.append_nil]
  exact ⟨h.1, h.2.trans hst⟩

/-- The calls of the hooks of one mode alternate, and it was entered last just when it is the one. -/
theorem hooks_called (h : Hooks log st) (m : String) : Called log st m := by
  induction h with
  | nil => exact ⟨(fun _ _ hi => by cases hi), by simp [calls]⟩
  | first _ ih => exact ih.enter (fun _ hst => by cases hst) _
  | exit _ ih => exact ih.exit
  | exited _ ih => exact ih.other rfl (by simp)
  | next _ ih => exact ih.enter (fun _ hst => by cases hst) _
  | entered _ ih => exact ih.other rfl Iff.rfl
  | change _ ih => exact ih.other rfl Iff.rfl

/-- The mode that was entered last, and nothing entered since. -/
def Last (log : List Hook) (p : String) (between : List Hook) : Prop :=
  ∃ before, log = before ++ .enter p :: between ∧ ∀ q, Hook.enter q ∉ between

theorem Last.concat {between : List Hook} (h : Last log p between) {h' : Hook}
    (hother : ∀ q, h' ≠ .enter q) : Last (log ++ [h']) p (between ++ [h']) := by
  obtain ⟨before, rfl, hnone⟩ := h
  refine ⟨before, by simp, fun q hq => ?_⟩
  rcases List.mem_append.1 hq with hq | hq
  · exact hnone q hq
  · exact hother q (List.mem_singleton.1 hq).symm

/-- The mode of the stage is the one entered last, and its exit is behind it in the last stage. -/
def Stage.reached (log : List Hook) : Stage → Prop
  | .idle => ∀ p, Hook.enter p ∉ log
  | .inside p | .leaving p => ∃ between, Last log p between
  | .left p => ∃ between, Last log p between ∧ Hook.exited p ∈ between

theorem reached_other {h' : Hook} (h : st.reached log) (hother : ∀ q, h' ≠ .enter q) :
    st.reached (log ++ [h']) := by
  cases st with
  | idle =>
    intro p hp
    rcases List.mem_append.1 hp with hp | hp
    · exact h p hp
    · exact hother p (List.mem_singleton.1 hp).symm
  | inside p | leaving p =>
    obtain ⟨between, hlast⟩ := h
    exact ⟨_, hlast.concat hother⟩
  | left p =>
    obtain ⟨between, hlast, hexited⟩ := h
    exact ⟨_, hlast.concat hother, List.mem_append_left _ hexited⟩

theorem last_enter (m : String) : Last (log ++ [.enter m]) m [] :=
  ⟨log, rfl, fun _ hq => by cases hq⟩

theorem hooks_reached (h : Hooks log st) : st.reached log := by
  induction h with
  | nil => exact fun _ hp => by cases hp
  | first _ _ => exact ⟨[], last_enter _⟩
  | exit _ ih => exact @reached_other _ (.leaving _) _ ih fun _ hq => by cases hq
  | exited _ ih =>
    obtain ⟨between, hlast⟩ := ih
    exact ⟨_, hlast.concat (fun _ hq => by cases hq), List.mem_append_right _ (List.mem_singleton_self _)⟩
  | next _ _ => exact ⟨[], last_enter _⟩
  | entered _ ih => exact reached_other ih (fun _ hq => by cases hq)
  | change _ ih => exact reached_other ih (fun _ hq => by cases hq)

/-- What comes before an `enter`. -/
def Handed (front : List Hook) : Prop := (∀ p, Hook.enter p ∉ front) ∨
  ∃ before p between, front = before ++ .enter p :: between ∧ (∀ q, Hook.enter q ∉ between) ∧
    Hook.exited p ∈ between

theorem handed_concat {h' : Hook} (h : ∀ front m back, log = front ++ .enter m :: back → Handed front)
    (hlast : ∀ m, h' = .enter m → Handed log) :
    ∀ front m back, log ++ [h'] = front ++ .enter m :: back → Handed front := by
  intro front m back heq
  rcases List.eq_nil_or_concat back with rfl | ⟨back, x, rfl⟩
  · obtain ⟨rfl, hh⟩ := List.append_inj' heq rfl
    exact hlast m (List.cons.inj hh).1
  · rw [List.concat_eq_append, ← List.cons_append, ← List.append_assoc] at heq
    exact h front m back (List.append_inj' heq rfl).1

/-- A mode is entered when the exit of the one before it is finished. -/
theorem hooks_handed (h : Hooks log st) :
    ∀ front m back, log = front ++ .enter m :: back → Handed front := by
  induction h with
  | nil => intro front m back heq; simp at heq
  | first hlog ih => exact handed_concat ih fun _ _ => Or.inl (hooks_reached hlog)
  | exit _ ih => exact handed_concat ih (fun _ hq => by cases hq)
  | exited _ ih => exact handed_concat ih (fun _ hq => by cases hq)
  | next hlog ih =>
    refine handed_concat ih fun _ _ => ?_
    obtain ⟨between, ⟨before, heq, hnone⟩, hexited⟩ := hooks_reached hlog
    exact Or.inr ⟨before, _, between, heq, hnone, hexited⟩
  | entered _ ih => exact handed_concat ih (fun _ hq => by cases hq)
  | change _ ih => exact handed_concat ih (fun _ hq => by cases hq)

end

/-! Mode switches in any interleaving. `switch` reads the current mode before it awaits that mode's exit,
    and broadcasts after an `enter` that may take long; when no call begins to exit a mode while another
    one is at it, and the `enter` hooks are finished in their order, the hooks are paired. -/

/-- The stage of the hooks, and the broadcast that is still to come. -/
structure Inv (M : Manager) : Prop where
  hooks : ∃ st, Hooks M.log st ∧ (M.current = none ∧ st = .idle ∧ M.exiting = [] ∧ M.log = [] ∨
    ∃ c, M.current = some c ∧ (M.exiting = [] ∧ st = .inside c.name ∨
      ∃ n, M.exiting = [(c, n)] ∧ st = .leaving c.name))
  told : M.entering = [] ∧ last_change M.log = M.current.map AppMode.name ∨
    ∃ front call, M.entering = front ++ [call] ∧ M.current = some call.next_mode

section
variable {modes : List AppMode} {M M' : Manager} {name : String} {log : List Hook}

theorem inv_init : Inv Manager.init := ⟨⟨.idle, .nil, Or.inl ⟨rfl, rfl, rfl, rfl⟩⟩, Or.inl ⟨rfl, rfl⟩⟩

theorem last_change_none {h : Hook} (hnone : h.change = none) :
    last_change (log ++ [h]) = last_change log := by
  simp [last_change, List.filterMap_append, hnone]

theorem last_change_some (payload : ModeChange) :
    last_change (log ++ [.mode_change payload]) = some payload.name := by
  simp [last_change, List.filterMap_append, Hook.change]

/-- A mode is entered when no other is. -/
theorem inv_enter_mode {st : Stage} (hlog : Hooks M.log st) (hst : st = .idle ∨ ∃ p, st = .left p)
    (hexiting : M.exiting = []) (call : Call) : Inv (M.enter_mode call) := by
  refine ⟨⟨.inside call.next_mode.name, ?_, Or.inr ⟨_, rfl, Or.inl ⟨hexiting, rfl⟩⟩⟩,
    Or.inr ⟨_, call, rfl, rfl⟩⟩
  rcases hst with rfl | ⟨p, rfl⟩
  · exact hlog.first
  · exact hlog.next

/-- What a call does up to its first await. -/
theorem switch_cases (modes : List AppMode) (M : Manager) (name : String) : M.switch modes name = M ∨
    M.current = none ∧ (∃ m, M.switch modes name = M.enter_mode ⟨none, m⟩) ∨
    ∃ prev m, M.current = some prev ∧ M.switch modes name =
      { M with exiting := M.exiting ++ [(prev, m)], log := M.log ++ [.exit prev.name] } := by
  unfold Manager.switch
  split
  · exact Or.inl rfl
  · next m _ =>
    cases hcurrent : M.current with
    | none => exact Or.inr (Or.inl ⟨rfl, m, rfl⟩)
    | some prev =>
      dsimp only
      split
      · exact Or.inl rfl
      · exact Or.inr (Or.inr ⟨prev, m, rfl, rfl⟩)

theorem start_cases (modes : List AppMode) (M : Manager) (name : String) :
    M.start modes name = M ∨ ∃ n, M.start modes name = M.switch modes n := by
  unfold Manager.start
  split
  · exact Or.inr ⟨name, rfl⟩
  · split
    · exact Or.inl rfl
    · exact Or.inr ⟨_, rfl⟩

theorem inv_switch (h : Inv M) (hidle : M.exiting = []) : Inv (M.switch modes name) := by
  obtain ⟨st, hlog, hstage⟩ := h.hooks
  rcases switch_cases modes M name with heq | ⟨hnone, m, heq⟩ | ⟨prev, m, hcurrent, heq⟩
  · rwa [heq]
  · rw [heq]
    rcases hstage with ⟨-, hst, hexiting, -⟩ | ⟨c, hcurrent, -⟩
    · exact inv_enter_mode hlog (Or.inl hst) hexiting _
    · rw [hnone] at hcurrent
      cases hcurrent
  · rw [heq]
    rcases hstage with ⟨hnone, -⟩ | ⟨c, hc, ⟨-, hst⟩ | ⟨n, hexiting, -⟩⟩
    · rw [hnone] at hcurrent
      cases hcurrent
    · obtain rfl : prev = c := Option.some.inj (hcurrent.symm.trans hc)
      rw [hst] at hlog
      refine ⟨⟨.leaving prev.name, hlog.exit, Or.inr ⟨prev, hcurrent, Or.inr ⟨m, by simp [hidle], rfl⟩⟩⟩, ?_⟩
      refine h.told.imp_left fun ⟨hnone, htold⟩ => ⟨hnone, ?_⟩
      exact (last_change_none rfl).trans htold
    · rw [hidle] at hexiting
      cases hexiting

theorem inv_after_exit (h : Inv M) {i : ℕ} {c : AppMode × AppMode} (hc : M.exiting[i]? = some c) :
    Inv (M.after_exit i c.1 c.2) := by
  obtain ⟨st, hlog, ⟨-, -, hexiting, -⟩ | ⟨p, -, ⟨hexiting, -⟩ | ⟨n, hexiting, rfl⟩⟩⟩ := h.hooks
  · simp [hexiting] at hc
  · simp [hexiting] at hc
  · rw [hexiting] at hc
    obtain ⟨hi, heq⟩ := List.getElem?_eq_some_iff.1 hc
    obtain rfl : i = 0 := Nat.lt_one_iff.1 hi
    obtain rfl : c = (p, n) := heq.symm
    exact inv_enter_mode hlog.exited (Or.inr ⟨_, rfl⟩) (by simp [hexiting]) _

theorem inv_after_enter (h : Inv M) {call : Call} (hc : M.entering[0]? = some call) :
    Inv (M.after_enter 0 call) := by
  obtain ⟨st, hlog, hstage⟩ := h.hooks
  refine ⟨⟨st, hlog.entered.change, ?_⟩, ?_⟩
  · rcases hstage with ⟨hnone, -, -, hlog⟩ | hin
    · -- before the first mode nothing is entered
      rcases h.told with ⟨hentering, -⟩ | ⟨front, last, -, hcurrent⟩
      · simp [hentering] at hc
      · rw [hnone] at hcurrent
        cases hcurrent
    · exact Or.inr hin
  · rcases h.told with ⟨hentering, -⟩ | ⟨front, last, hentering, hcurrent⟩
    · simp [hentering] at hc
    · rw [hentering] at hc
      cases front with
      | nil =>
        obtain rfl : last = call := Option.some.inj hc
        refine Or.inl ⟨by simp [Manager.after_enter, hentering], ?_⟩
        show last_change (_ ++ [.mode_change _]) = M.current.map AppMode.name
        rw [last_change_some, hcurrent]
        rfl
      | cons first front =>
        exact Or.inr ⟨front, last, by simp [Manager.after_enter, hentering], hcurrent⟩

theorem inv_step {a : Label} (h : Inv M) (hok : orderly modes M a) (hstep : step modes M a M') : Inv M' := by
  cases a with
  | switch name =>
    obtain rfl : M.switch modes name = M' := Option.some.inj hstep
    rcases hok with hidle | heq
    · exact inv_switch h hidle
    · rwa [heq]
  | start name =>
    obtain rfl : M.start modes name = M' := Option.some.inj hstep
    rcases hok with hidle | heq
    · rcases start_cases modes M name with heq | ⟨n, heq⟩
      · rwa [heq]
      · rw [heq]
        exact inv_switch h hidle
    · rwa [heq]
  | exited i raised =>
    obtain ⟨c, hc, rfl⟩ := Option.map_eq_some_iff.1 hstep
    exact inv_after_exit h hc
  | entered i raised =>
    obtain ⟨call, hc, rfl⟩ := Option.map_eq_some_iff.1 hstep
    obtain rfl : i = 0 := hok
    exact inv_after_enter h hc
  | broadcast i raised =>
    simp only [step, Manager.step, Option.ite_none_right_eq_some, Option.some.injEq] at hstep
    obtain ⟨-, rfl⟩ := hstep
    exact ⟨h.hooks, h.told⟩

theorem Inv.pairs (h : Inv M) : Pairs M := by
  obtain ⟨st, hlog, hstage⟩ := h.hooks
  refine ⟨fun m => (hooks_called hlog m).1, hooks_handed hlog, fun hexiting hentering _ => ?_⟩
  rcases hstage with ⟨-, -, -, hnil⟩ | ⟨c, hcurrent, ⟨-, rfl⟩ | ⟨n, hleaving, -⟩⟩
  · exact Or.inl hnil
  · refine Or.inr ⟨c, hcurrent, fun m => ?_, ?_⟩
    · obtain ⟨halternates, hcalled⟩ := hooks_called hlog m
      unfold is_entered
      rw [halternates.last, hcalled, Stage.inside.injEq]
      exact eq_comm
    · rcases h.told with ⟨-, htold⟩ | ⟨front, call, hcalls, -⟩
      · rw [htold, hcurrent]
        rfl
      · rw [hentering] at hcalls
        simp at hcalls
  · rw [hexiting] at hleaving
    cases hleaving

/-- In every orderly run of the calls the hooks are paired. -/
theorem switches_paired {as : List Label}
    (h : Run (restrict (orderly modes) (step modes)) Manager.init as M) : Pairs M :=
  (Run.invariant (I := Inv) (fun hi hst => inv_step hi hst.1 hst.2) inv_init h).pairs

instance : (a : Label) → Decidable (orderly modes M a)
  | .switch _ => inferInstanceAs (Decidable (_ ∨ _))
  | .start _ => inferInstanceAs (Decidable (_ ∨ _))
  | .entered _ _ => inferInstanceAs (Decidable (_ = _))
  | .exited .. => inferInstanceAs (Decidable True)
  | .broadcast .. => inferInstanceAs (Decidable True)

end

/-! ### Two calls at a time -/

def chat : AppMode := ⟨"chat", "Chat", "c"⟩

def story : AppMode := ⟨"story", "Story", "s"⟩

def quiz : AppMode := ⟨"quiz", "Quiz", "q"⟩

/-- The second call comes while the first one broadcasts. -/
def one_by_one : List Label :=
  [.start "none", .entered 0 false, .switch "story", .broadcast 0 true, .exited 0 true, .entered 0 false,
    .broadcast 0 false]

theorem switches_paired_one_by_one : ∃ M, Run (restrict (orderly [chat, story]) (step [chat, story]))
    Manager.init one_by_one M ∧ M.current = some story ∧ Pairs M := by
  obtain ⟨M, hrun, hend⟩ := Run.of_replay_any
    (fun M a => if orderly [chat, story] M a then Manager.step [chat, story] M a else none) Manager.init
    one_by_one (fun M => decide (M.current = some story)) (by decide +kernel)
  have hrestricted := Run.restrict_mono hrun
  exact ⟨M, hrestricted, of_decide_eq_true hend, switches_paired hrestricted⟩

/-- Two calls exit the same mode. -/
theorem exited_twice : ¬ ∀ as M, Run (step [chat, story, quiz]) Manager.init as M → Pairs M := by
  intro hall
  obtain ⟨M, hrun, hend⟩ := Run.of_replay_any (Manager.step [chat, story, quiz]) Manager.init
    [.start "chat", .entered 0 false, .broadcast 0 false, .switch "story", .switch "quiz"]
    (fun M => decide (calls "chat" M.log = [true, false, false])) (by decide +kernel)
  have halternating := (hall _ M hrun).alternating "chat"
  rw [of_decide_eq_true hend] at halternating
  exact absurd ((halternating 2 false rfl).2 rfl) Bool.false_ne_true

end LocalVoice.ModeManager
