import LocalVoice.ArmPlugin.Motions

/-! Where every motion is started with a record that `busy_action` reads, and keeps it as long as its
    worker thread moves the arm, there is one motion at a time. -/

namespace LocalVoice.ArmPlugin
open LocalVoice.Lib

/-! ### Records -/

/-- What `busy_action` finds the motion `m` by. -/
def Motion.RecordedAs (x : Motion) (c : State) (m : ℕ) : Prop :=
  match x.source with
  | .dispatch_action name => c.inflight_tasks.get? name = some m
  | .pipeline k _ => c.pipeline k = some m ∧ k ∈ c.sources
  | _ => False

/-- A motion whose task is not done is recorded, no other motion has such a task, and no worker thread
    outlasts its task. -/
structure Inv (c : State) : Prop where
  recorded : ∀ (m : ℕ) x, c.motions[m]? = some x → x.done = false → x.RecordedAs c m
  alone : ∀ (m n : ℕ) x y, c.motions[m]? = some x → c.motions[n]? = some y →
    x.done = false → y.done = false → m = n
  covered : ∀ (m : ℕ) x, c.motions[m]? = some x → x.active = true → x.done = false

/-- The step starts no motion without a record, takes none from a motion that goes on, and does not
    let a task end whose worker thread runs. -/
def keeps_record (c : State) : Label → Bool
  | .execute_action _ found => found ≠ .frames
  | .test_action torque_on settled => !torque_on || !settled || c.test_running
  | .forget k => !(c.pipeline k).any c.live
  | .deliver m => (c.motions[m]?).all fun x => x.task ≠ .cancelling || x.worker ≠ .running
  | .resume i =>
    match c.calls[i]? with
    | some (.dispatching name m) => (c.inflight_tasks.get? name).all fun n => n = m || !c.live n
    | _ => true
  | _ => true

section
variable {c : State} {m : ℕ} {x : Motion}

theorem live_iff : c.live m = true ↔ ∃ x, c.motions[m]? = some x ∧ x.done = false := by
  simp [State.live, Option.any_eq_true]

/-- `busy_action` names a motion that is recorded and not done. -/
theorem busy_of_recorded (hm : c.motions[m]? = some x) (hdone : x.done = false)
    (h : x.RecordedAs c m) : c.busy_action ≠ none := by
  have hlive : c.live m = true := live_iff.2 ⟨x, hm, hdone⟩
  intro hbusy
  obtain ⟨hitems, hsources⟩ := Option.or_eq_none_iff.1 hbusy
  unfold Motion.RecordedAs at h
  split at h
  · next name _ =>
    have hfind := List.find?_eq_none.1 (Option.map_eq_none_iff.1 hitems) (name, m)
      (Dict.mem_items.2 h)
    exact hfind hlive
  · next k name _ =>
    have hname := List.findSome?_eq_none_iff.1 hsources k h.2
    simp [State.busy_motion_name, h.1, hlive] at hname
  · exact h.elim

/-- When `busy_action` names nothing, every task is done. -/
theorem Inv.idle (h : Inv c) (hbusy : c.busy_action = none) : ∀ (n : ℕ) y, c.motions[n]? = some y →
    y.done = true := by
  intro n y hn
  by_contra hdone
  rw [Bool.not_eq_true] at hdone
  exact busy_of_recorded hn hdone (h.recorded n y hn hdone) hbusy

theorem inv_init : Inv State.init where
  recorded := by simp [State.init]
  alone := by simp [State.init]
  covered := by simp [State.init]

/-! ### What the steps keep -/

/-- A step that leaves the motions, and the records of those that are not done. -/
theorem Inv.quiet {c' : State} (h : Inv c) (hmotions : c'.motions = c.motions)
    (hrecorded : ∀ (n : ℕ) y, c.motions[n]? = some y → y.done = false → y.RecordedAs c n →
      y.RecordedAs c' n) : Inv c' where
  recorded := by
    intro n y hn hdone
    rw [hmotions] at hn
    exact hrecorded n y hn hdone (h.recorded n y hn hdone)
  alone := by rw [hmotions]; exact h.alone
  covered := by rw [hmotions]; exact h.covered

/-- A step that moves one motion, and no record. -/
theorem Inv.moved {x' : Motion} {running : Bool} (h : Inv c) (hm : c.motions[m]? = some x)
    (hsource : x'.source = x.source) (hdone : x'.done = false → x.done = false)
    (hcovered : x'.active = true → x'.done = false) :
    Inv { c.set m x' with test_running := running } where
  recorded := by
    intro n y hn hy
    rcases (get_set_iff hm).1 hn with ⟨rfl, rfl⟩ | ⟨-, hn⟩
    · have hold := h.recorded m x hm (hdone hy)
      unfold Motion.RecordedAs at hold ⊢
      rw [hsource]
      exact hold
    · exact h.recorded n y hn hy
  alone := by
    intro n l y z hn hl hy hz
    rcases (get_set_iff hm).1 hn with ⟨rfl, rfl⟩ | ⟨-, hn⟩ <;>
      rcases (get_set_iff hm).1 hl with ⟨rfl, rfl⟩ | ⟨-, hl⟩
    · rfl
    · exact h.alone m l x z hm hl (hdone hy) hz
    · exact h.alone n m y x hn hm hy (hdone hz)
    · exact h.alone n l y z hn hl hy hz
  covered := by
    intro n y hn hy
    rcases (get_set_iff hm).1 hn with ⟨rfl, rfl⟩ | ⟨-, hn⟩
    · exact hcovered hy
    · exact h.covered n y hn hy

/-- A motion that is started with a record while every other task is done. -/
theorem Inv.started {c' : State} {source : Source} (h : Inv c) (hbusy : c.busy_action = none)
    (hmotions : c'.motions = c.motions ++ [⟨source, .created, .pending⟩])
    (hrecorded : (Motion.mk source .created .pending).RecordedAs c' c.motions.length) : Inv c' where
  recorded := by
    intro n y hn hy
    rw [hmotions] at hn
    rcases get_concat_iff.1 hn with hn | ⟨rfl, rfl⟩
    · simp [h.idle hbusy n y hn] at hy
    · exact hrecorded
  alone := by
    intro n l y z hn hl hy hz
    rw [hmotions] at hn hl
    rcases get_concat_iff.1 hn with hn | ⟨rfl, rfl⟩
    · simp [h.idle hbusy n y hn] at hy
    · rcases get_concat_iff.1 hl with hl | ⟨rfl, rfl⟩
      · simp [h.idle hbusy l z hl] at hz
      · rfl
  covered := by
    intro n y hn hy
    rw [hmotions] at hn
    rcases get_concat_iff.1 hn with hn | ⟨rfl, rfl⟩
    · exact h.covered n y hn hy
    · rfl

/-- A call is answered, or goes on to wait. -/
theorem Inv.calls {calls : List Call} (h : Inv c) : Inv { c with calls := calls } :=
  h.quiet rfl fun _ _ _ _ hold => hold

/-- A slot is popped whose motion, if it is another's, is done. -/
theorem Inv.popped {calls : List Call} {name : String} (h : Inv c)
    (hslot : ∀ n, c.inflight_tasks.get? name = some n → c.live n = false) :
    Inv { c with inflight_tasks := c.inflight_tasks.erase name, calls := calls } := by
  refine h.quiet rfl fun n y hn hy hold => ?_
  unfold Motion.RecordedAs at hold ⊢
  split at hold
  · next name' heq =>
    simp only [Dict.get?_erase]
    split
    · next hname =>
      subst hname
      have hlive : c.live n = true := live_iff.2 ⟨y, hn, hy⟩
      rw [hslot n hold] at hlive
      cases hlive
    · exact hold
  · next k name' heq => simpa [heq] using hold
  · exact hold.elim

theorem Inv.advanced {c' : State} {w w' : Worker} (h : Inv c) (hw : (Motion.mk .http w .pending).active)
    (hstep : c.advance m w w' = some c') : Inv c' := by
  simp only [State.advance, Option.bind_eq_bind, Option.bind_eq_some_iff] at hstep
  obtain ⟨x, hm, hstep⟩ := hstep
  split at hstep
  · next hguard =>
    cases hstep
    refine h.moved hm rfl (fun hdone => hdone) fun _ => ?_
    have hactive : x.active = true := by
      rw [← hw]
      simp [Motion.active, hguard.1]
    exact h.covered m x hm hactive
  · cases hstep

theorem Inv.cancelled {c' : State} (h : Inv c) (hstep : c.cancel_task m = some c') : Inv c' := by
  obtain ⟨x, hm, rfl⟩ := Option.map_eq_some_iff.1 hstep
  by_cases hpending : x.task = .pending
  · have hcancel : x.cancel = { x with task := .cancelling } := by simp [Motion.cancel, hpending]
    rw [hcancel]
    exact h.moved hm rfl (fun _ => by simp [Motion.done, hpending]) fun _ => rfl
  · have hcancel : x.cancel = x := by simp [Motion.cancel, hpending]
    rw [hcancel]
    exact h.moved hm rfl (fun hdone => hdone) fun hactive => h.covered m x hm hactive

/-- A task is only done when its worker thread is not in the arm any more. -/
theorem deliver_source {x' : Motion} (h : x.deliver = some x') :
    x'.source = x.source ∧ x'.done = true := by
  unfold Motion.deliver at h
  split at h <;> cases h <;> exact ⟨rfl, rfl⟩

theorem deliver_inactive {x' : Motion} (h : x.deliver = some x')
    (hrunning : x.task = .cancelling → x.worker ≠ .running) : x'.active = false := by
  unfold Motion.deliver at h
  split at h <;> cases h
  · next heq => simp [Motion.active, heq]
  · rfl
  · rfl
  · next hcancelling hcreated hqueued =>
    have hne := hrunning hcancelling
    unfold Motion.active
    split
    · next heq => exact absurd heq hcreated
    · next heq => exact absurd heq hqueued
    · next heq => exact absurd heq hne
    · rfl

theorem Inv.delivered {c' : State} (h : Inv c) (hkeeps : keeps_record c (.deliver m) = true)
    (hstep : c.deliver m = some c') : Inv c' := by
  simp only [State.deliver, Option.bind_eq_bind, Option.bind_eq_some_iff] at hstep
  obtain ⟨x, hm, x', hx', heq⟩ := hstep
  cases heq
  obtain ⟨hsource, hdone⟩ := deliver_source hx'
  have hinactive : x'.active = false := by
    refine deliver_inactive hx' fun hcancelling => ?_
    simpa [keeps_record, hm, hcancelling] using hkeeps
  refine h.moved hm hsource ?_ ?_
  · simp [hdone]
  · simp [hinactive]

theorem Inv.resumed {c' : State} {i : ℕ} (h : Inv c) (hkeeps : keeps_record c (.resume i) = true)
    (hstep : c.resume i = some c') : Inv c' := by
  simp only [State.resume, Option.bind_eq_bind, Option.bind_eq_some_iff] at hstep
  obtain ⟨call, hi, m, hmotion, x, hm, hstep⟩ := hstep
  split at hstep
  · next o hdone =>
    cases hstep
    -- the motion that the call has awaited is done
    have hdead : c.live m = false := by simp [State.live, hm, Motion.done, hdone]
    cases call with
    | dispatching name m' =>
      obtain rfl : m' = m := Option.some.inj hmotion
      have hslot : ∀ n, c.inflight_tasks.get? name = some n → c.live n = false := by
        intro n hn
        simp only [keeps_record, hi, hn, Option.all_some, Bool.or_eq_true, decide_eq_true_eq] at hkeeps
        rcases hkeeps with rfl | hn
        · exact hdead
        · simpa using hn
      cases o with
      | returned ok => exact h.popped hslot
      | raised => exact h.popped hslot
      | cancelled => exact h.calls
    | waiting name m' =>
      obtain rfl : m' = m := Option.some.inj hmotion
      simp only [Call.resume]
      split
      · next hget =>
        refine h.popped fun n hn => ?_
        obtain rfl : m' = n := Option.some.inj (hget.symm.trans hn)
        exact hdead
      · exact h.calls
    | executing m' => exact h.calls
    | ended r => cases hmotion
  · cases hstep

theorem Inv.dispatched {name : String} {found : Lookup} (h : Inv c) :
    Inv (dispatch_action c name found) := by
  cases found with
  | no_arm => exact h.calls
  | unknown => exact h.calls
  | frames =>
    simp only [dispatch_action]
    split
    · exact h.calls
    · split
      · exact h.calls
      · next hbusy => exact h.started hbusy rfl (by simp [Motion.RecordedAs])

theorem Inv.grasped {k : ℕ} {name : String} (h : Inv c) : Inv (dispatch_grasp c k name) := by
  unfold dispatch_grasp
  split
  · exact h.calls
  · next hk =>
    split
    · exact h.calls
    · exact h.calls
    · next hbusy =>
      refine h.started hbusy rfl ⟨by simp, ?_⟩
      simpa [State.reply, State.add] using hk

theorem inv_step {c' : State} {a : Label} (h : Inv c) (hkeeps : keeps_record c a = true)
    (hstep : step c a c') : Inv c' := by
  cases a with
  | execute_action name found =>
    cases hstep
    cases found with
    | frames => cases hkeeps
    | no_arm => exact h.calls
    | unknown => exact h.calls
  | dispatch_action name found => cases hstep; exact h.dispatched
  | wait_action_completion name =>
    cases hstep
    unfold wait_action_completion
    split <;> exact h.calls
  | test_action torque_on settled =>
    cases hstep
    unfold test_action
    split
    · exact h.calls
    · split
      · exact h.calls
      · split
        · exact h.calls
        · simp_all [keeps_record]
  | dispatch_grasp k name => cases hstep; exact h.grasped
  | register_motion_source k =>
    cases hstep
    refine h.quiet rfl fun n y _ _ hold => ?_
    unfold Motion.RecordedAs at hold ⊢
    split at hold
    · next heq => simpa [heq] using hold
    · next heq => simpa [heq] using ⟨hold.1, Or.inl hold.2⟩
    · exact hold.elim
  | stop k =>
    obtain ⟨m, -, hcancel⟩ := Option.bind_eq_some_iff.1 hstep
    exact h.cancelled hcancel
  | forget k =>
    cases hstep
    refine h.quiet rfl fun n y hn hy hold => ?_
    unfold Motion.RecordedAs at hold ⊢
    split at hold
    · next heq => simpa [heq] using hold
    · next j name heq =>
      have hne : j ≠ k := by
        rintro rfl
        have hlive : c.live n = true := live_iff.2 ⟨y, hn, hy⟩
        simp [keeps_record, hold.1, hlive] at hkeeps
      simpa [heq, hne] using hold
    · exact hold.elim
  | begin m => exact h.advanced rfl hstep
  | take m => exact h.advanced rfl hstep
  | finish m o =>
    simp only [step, State.next] at hstep
    split at hstep
    · cases hstep
    · exact h.advanced rfl hstep
  | deliver m => exact h.delivered hkeeps hstep
  | resume i => exact h.resumed hkeeps hstep
  | timeout i =>
    simp only [step, State.next, State.timeout, Option.bind_eq_bind, Option.bind_eq_some_iff] at hstep
    obtain ⟨call, -, hstep⟩ := hstep
    split at hstep
    · cases hstep
      exact h.calls
    · cases hstep
  | cancel i =>
    simp only [step, State.next, State.cancel, Option.bind_eq_bind, Option.bind_eq_some_iff] at hstep
    obtain ⟨call, -, hstep⟩ := hstep
    cases call with
    | executing m => exact h.cancelled hstep
    | dispatching name m =>
      cases hstep
      exact h.calls
    | waiting name m => exact h.cancelled hstep
    | ended r => cases hstep

end

/-! ### One motion at a time -/

/-- No two motions are active, and while one is, `busy_action` names a motion. -/
structure State.OneMotion (c : State) : Prop where
  alone : ∀ (m n : ℕ) x y, c.motions[m]? = some x → c.motions[n]? = some y →
    x.active = true → y.active = true → m = n
  busy : ∀ x ∈ c.motions, x.active = true → c.busy_action ≠ none

/-- The request asks for a motion. -/
def Label.starts : Label → Bool
  | .execute_action .. => true
  | .dispatch_action .. => true
  | .test_action .. => true
  | .dispatch_grasp .. => true
  | _ => false

/-- Nothing is started, and the request is answered at once. -/
def State.Refuses (c c' : State) : Prop :=
  c'.motions = c.motions ∧ ∃ r, c'.calls = c.calls ++ [.ended r] ∧ r.refused = true

section
variable {c : State}

theorem Inv.at_most_one (h : Inv c) : c.OneMotion where
  alone m n x y hm hn hx hy := h.alone m n x y hm hn (h.covered m x hm hx) (h.covered n y hn hy)
  busy := by
    intro x hx hactive
    obtain ⟨m, hm⟩ := List.mem_iff_getElem?.1 hx
    have hdone := h.covered m x hm hactive
    exact busy_of_recorded hm hdone (h.recorded m x hm hdone)

theorem refuses_reply {r : Result} (hr : r.refused = true) : c.Refuses (c.reply r) :=
  ⟨rfl, r, rfl, hr⟩

/-- While `busy_action` names a motion, a request that would be recorded is refused. -/
theorem refuses_busy {c' : State} {a : Label} (hbusy : c.busy_action ≠ none)
    (hkeeps : keeps_record c a = true) (hstarts : a.starts = true) (hstep : step c a c') :
    c.Refuses c' := by
  cases a with
  | execute_action name found =>
    cases hstep
    cases found with
    | frames => cases hkeeps
    | no_arm => exact refuses_reply rfl
    | unknown => exact refuses_reply rfl
  | dispatch_action name found =>
    cases hstep
    cases found with
    | no_arm => exact refuses_reply rfl
    | unknown => exact refuses_reply rfl
    | frames =>
      simp only [dispatch_action]
      split
      · exact refuses_reply rfl
      · split
        · exact refuses_reply rfl
        · next hidle => exact absurd hidle hbusy
  | test_action torque_on settled =>
    cases hstep
    unfold test_action
    split
    · exact refuses_reply rfl
    · split
      · exact refuses_reply rfl
      · split
        · exact refuses_reply rfl
        · simp_all [keeps_record]
  | dispatch_grasp k name =>
    cases hstep
    unfold dispatch_grasp
    split
    · exact refuses_reply rfl
    · split
      · exact refuses_reply rfl
      · exact refuses_reply rfl
      · next hidle => exact absurd hidle hbusy
  | _ => cases hstarts

end

/-- In every run whose steps all keep the records there is one motion at a time, and what asks for
    another one is refused. -/
theorem one_motion {as : List Label} {c : State}
    (hrun : Run (restrict (fun c a => keeps_record c a = true) step) State.init as c) :
    c.OneMotion ∧ ∀ a c', keeps_record c a = true → step c a c' → a.starts = true →
      (∃ x ∈ c.motions, x.active = true) → c.Refuses c' := by
  have hinv : Inv c := by
    refine Run.invariant (I := Inv) ?_ inv_init hrun
    rintro c a c' h ⟨hkeeps, hstep⟩
    exact inv_step h hkeeps hstep
  refine ⟨hinv.at_most_one, ?_⟩
  rintro a c' hkeeps hstep hstarts ⟨x, hx, hactive⟩
  exact refuses_busy (hinv.at_most_one.busy x hx hactive) hkeeps hstarts hstep

/-- While an action that was dispatched moves the arm, its tool is given up, the action is asked for
    again and a pipeline asks for a grasp. -/
theorem one_motion_given_up : ∃ c : State, c.OneMotion ∧ c.motions.length = 1 ∧
    c.busy_action = some "wave" := by
  obtain ⟨c, hrun, hc⟩ := Run.of_replay_any
    (fun c a => if keeps_record c a = true then c.next a else none) State.init
    [.register_motion_source 0, .dispatch_action "wave" .frames, .begin 0, .take 0, .cancel 0,
      .dispatch_action "wave" .frames, .dispatch_grasp 0 "grasp-box"]
    (fun c => c.motions.length = 1 && c.busy_action = some "wave") (by decide +kernel)
  simp only [Bool.and_eq_true, decide_eq_true_eq] at hc
  exact ⟨c, (one_motion (Run.restrict_mono hrun)).1, hc.1, hc.2⟩

/-- An action that is awaited moves the arm beside one that was dispatched, and a test run is started
    beside it. While an action moves the arm, `busy_action` names none once a wait for its completion
    was cancelled. -/
theorem interleaved_motions :
    (¬ ∀ as c, Run step State.init as c → ∀ (m n : ℕ) x y, c.motions[m]? = some x →
      c.motions[n]? = some y → x.worker = .running → y.worker = .running → m = n) ∧
    (¬ ∀ as c c', Run step State.init as c → step c (.test_action true true) c' →
      (∃ x ∈ c.motions, x.worker = .running) → c.Refuses c') ∧
    ¬ ∀ as c, Run step State.init as c → ∀ x ∈ c.motions, x.worker = .running →
      c.busy_action ≠ none := by
  refine ⟨fun hall => ?_, fun hall => ?_, fun hall => ?_⟩
  · obtain ⟨c, hrun, hc⟩ := Run.of_replay_any State.next State.init
      [.dispatch_action "wave" .frames, .begin 0, .take 0, tool (some "await") "go_home" .frames,
        .take 1]
      (fun c => c.motions = [⟨.dispatch_action "wave", .running, .pending⟩,
        ⟨.execute_action "go_home", .running, .pending⟩]) (by decide +kernel)
    have hmotions := of_decide_eq_true hc
    have h01 := hall _ c hrun 0 1 _ _ (by rw [hmotions]; rfl) (by rw [hmotions]; rfl) rfl rfl
    cases h01
  · obtain ⟨c, hrun, hc⟩ := Run.of_replay_any State.next State.init
      [.dispatch_action "wave" .frames, .begin 0, .take 0]
      (fun c => c.motions = [⟨.dispatch_action "wave", .running, .pending⟩] && !c.test_running)
      (by decide +kernel)
    simp only [Bool.and_eq_true, decide_eq_true_eq, Bool.not_eq_true'] at hc
    obtain ⟨hmotions, htest⟩ := hc
    have hrefuses := hall _ c _ hrun rfl ⟨_, by rw [hmotions]; exact List.mem_singleton.2 rfl, rfl⟩
    have hlength := congrArg List.length hrefuses.1
    simp [test_action, htest, State.add, State.reply] at hlength
  · obtain ⟨c, hrun, hc⟩ := Run.of_replay_any State.next State.init
      [.dispatch_action "wave" .frames, .begin 0, .take 0, .wait_action_completion "wave", .cancel 1,
        .deliver 0]
      (fun c => c.motions = [⟨.dispatch_action "wave", .running, .done .cancelled⟩] &&
        c.busy_action = none) (by decide +kernel)
    simp only [Bool.and_eq_true, decide_eq_true_eq] at hc
    exact hall _ c hrun _ (by rw [hc.1]; exact List.mem_singleton.2 rfl) rfl hc.2

end LocalVoice.ArmPlugin
