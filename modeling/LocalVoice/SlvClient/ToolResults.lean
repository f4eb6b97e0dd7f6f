import LocalVoice.SlvClient.Moves

/-! Tool results and the sockets their calls came on. A result never opens a socket, but it is written
    to whatever `_ws` is once the lock is free. `_ws` is never anything but the last socket, so a result
    stays on its own one if no other was opened in the meantime. -/

namespace LocalVoice.SlvClient
open LocalVoice.Lib

/-! ### `_ws` is the last socket -/

/-- What a step does to `_ws`: it stays, it is cleared, or it is a new socket. -/
inductive WsStep (c c' : Shared) : Prop where
  | same (hws : c'.ws = c.ws) (hopened : c'.opened = c.opened)
  | cleared (hws : c'.ws = none) (hopened : c'.opened = c.opened)
  | assigned (hws : c'.ws = some c.opened) (hopened : c'.opened = c.opened + 1)

def WsLatest (c : Shared) : Prop := ∀ s, c.ws = some s → s + 1 = c.opened

theorem WsLatest.step {c c' : Shared} (h : WsLatest c) (hstep : WsStep c c') : WsLatest c' := by
  intro s hs
  cases hstep with
  | same hws hopened =>
    rw [hopened]
    exact h s (hws ▸ hs)
  | cleared hws hopened =>
    rw [hws] at hs
    cases hs
  | assigned hws hopened =>
    rw [hws] at hs
    obtain rfl := Option.some.inj hs
    exact hopened.symm

section
variable {c c' : Shared} {job : Job} {m : Move} {ph ph' : Phase}

theorem moved_ws (h : Moved c job m ph ph' c') : WsStep c c' := by
  cases h with
  | failed => exact .cleared rfl rfl
  | tear_wait => exact .cleared rfl rfl
  | tear => exact .cleared rfl rfl
  | connected => exact .assigned rfl rfl
  | slam_closed => exact .cleared rfl rfl
  | refuse_closed => exact .cleared rfl rfl
  | reject_wait => exact .cleared rfl rfl
  | reject => exact .cleared rfl rfl
  | ws_ended => exact .cleared rfl rfl
  | _ => exact .same rfl rfl

theorem start_ws (job : Job) : WsStep c (job.start c).2 := by
  cases job with
  | connect =>
    simp only [Job.start]
    split <;> exact .same rfl rfl
  | _ => exact .same rfl rfl

end

theorem happened_ws {c c' : Shared} {a : Label} (h : Happened c a c') : WsStep c c' := by
  cases h with
  | @frame _ t f => cases f <;> exact .same rfl rfl
  | @reader_end _ _ normal => cases normal <;> exact .same rfl rfl
  | _ => exact .same rfl rfl

theorem step_ws {c c' : Client} {a : Label} (h : Stepped c a c') : WsStep c.shared c'.shared := by
  cases h with
  | @call job _ => exact start_ws job
  | task _ hmoved => exact moved_ws hmoved
  | happened hh => exact happened_ws hh
  | take => exact .same rfl rfl
  | take_call => exact .same rfl rfl

/-! ### Results -/

/-- A result waits, is written to the socket of its call, or is done. -/
def Task.bound (t : Task) : Prop :=
  ∀ origin, t.job = .send (.tool_result origin) →
    t.phase = .handling ∨ t.phase = .waiting ∨ t.phase = .ended ∨ t.phase = .writing origin

/-- When a result gets the lock, no socket was opened after the one of its call, or there is none. -/
def unsuperseded (c : Client) : Label → Bool
  | .task i .go => match c.tasks[i]? with
    | some ⟨.send (.tool_result origin), .waiting⟩ =>
      c.shared.ws = none || origin + 1 = c.shared.opened
    | _ => true
  | _ => true

section
variable {c c' : Shared} {job : Job} {m : Move} {ph ph' : Phase}

/-- What a move writes: nothing, or a result to the socket it was at. -/
theorem moved_written (h : Moved c job m ph ph' c') : c'.written = c.written ∨
    ∃ origin s, job = .send (.tool_result origin) ∧ ph = .writing s ∧
      c'.written = c.written ++ [(origin, s)] := by
  cases h with
  | wrote_result hjob => exact Or.inr ⟨_, _, hjob, rfl, rfl⟩
  | _ => exact Or.inl rfl

theorem happened_written {a : Label} (h : Happened c a c') : c'.written = c.written := by
  cases h with
  | @frame _ t f => cases f <;> rfl
  | @reader_end _ _ normal => cases normal <;> rfl
  | _ => rfl

theorem start_written (job : Job) : (job.start c).2.written = c.written := by
  cases job with
  | connect =>
    simp only [Job.start]
    split <;> rfl
  | _ => rfl

end

/-- A move of a result keeps it with the socket of its call. -/
theorem bound_moved {c c' : Shared} {t : Task} {m : Move} {ph : Phase} (ht : t.bound)
    (h : Moved c t.job m t.phase ph c')
    (hlet : ∀ origin, t = ⟨.send (.tool_result origin), .waiting⟩ → m = .go →
      c.ws = none ∨ c.ws = some origin) : Task.bound ⟨t.job, ph⟩ := by
  obtain ⟨job, phase⟩ := t
  intro origin hjob
  obtain rfl : job = .send (.tool_result origin) := hjob
  rcases ht origin rfl with hphase | hphase | hphase | hphase
  · obtain rfl : phase = .handling := hphase
    cases h with
    | handled => exact Or.inr (Or.inl rfl)
    | stopped => exact Or.inr (Or.inr (Or.inl rfl))
  · obtain rfl : phase = .waiting := hphase
    cases h with
    | @send_open _ s _ hws =>
      rcases hlet origin rfl rfl with hnone | hown
      · rw [hws] at hnone
        cases hnone
      · obtain rfl : s = origin := Option.some.inj (hws.symm.trans hown)
        exact Or.inr (Or.inr (Or.inr rfl))
    | send_dead => exact Or.inr (Or.inr (Or.inl rfl))
    | revive hp _ _ hconnect =>
      cases hp
      cases hconnect
    | too_late => exact Or.inr (Or.inr (Or.inl rfl))
    | lock hreconnect => cases hreconnect
    | stopped => exact Or.inr (Or.inr (Or.inl rfl))
  · obtain rfl : phase = .ended := hphase
    cases h with
    | stopped hstops => exact hstops.elim
  · obtain rfl : phase = .writing origin := hphase
    cases h with
    | wrote_result => exact Or.inr (Or.inr (Or.inl rfl))
    | wrote => exact Or.inr (Or.inr (Or.inl rfl))
    | failed => exact Or.inr (Or.inr (Or.inl rfl))
    | stopped => exact Or.inr (Or.inr (Or.inl rfl))

/-- `_ws` is the last socket, results are with the sockets of their calls, and were written there. -/
structure Delivered (c : Client) : Prop where
  latest : WsLatest c.shared
  bound : ∀ t ∈ c.tasks, t.bound
  own : ∀ e ∈ c.shared.written, e.1 = e.2

theorem bound_of_job {job : Job} (ph : Phase) (h : ∀ origin, job ≠ .send (.tool_result origin)) :
    Task.bound ⟨job, ph⟩ := fun origin hjob => absurd hjob (h origin)

theorem delivered_step {c c' : Client} {a : Label} (h : Delivered c) (hlet : unsuperseded c a = true)
    (hstep : c.step a = some c') : Delivered c' := by
  have hstepped := step_cases hstep
  have hlatest := h.latest.step (step_ws hstepped)
  cases hstepped with
  | @call job hjob =>
    refine ⟨hlatest, fun t ht => ?_, ?_⟩
    · rcases List.mem_append.1 ht with ht | ht
      · exact h.bound t ht
      · obtain rfl := List.mem_singleton.1 ht
        exact bound_of_job _ hjob
    · rw [start_written]
      exact h.own
  | @task i m t ph _ ht hmoved htasks =>
    have hmem : t ∈ c.tasks := List.mem_of_getElem? ht
    refine ⟨hlatest, fun u hu => ?_, ?_⟩
    · rw [htasks] at hu
      rcases List.mem_or_eq_of_mem_set hu with hu | rfl
      · exact h.bound u hu
      · refine bound_moved (h.bound t hmem) hmoved ?_
        rintro origin rfl rfl
        simp only [unsuperseded, ht, Bool.or_eq_true, decide_eq_true_eq] at hlet
        cases hws : c.shared.ws with
        | none => exact Or.inl rfl
        | some s =>
          have hs := h.latest s hws
          rcases hlet with hnone | hlast
          · rw [hws] at hnone
            cases hnone
          · obtain rfl : s = origin := by omega
            exact Or.inr rfl
    · rcases moved_written hmoved with hw | ⟨origin, s, hjob, hphase, hw⟩
      · rw [hw]
        exact h.own
      · rw [hw]
        intro e he
        rcases List.mem_append.1 he with he | he
        · exact h.own e he
        · obtain rfl := List.mem_singleton.1 he
          rcases h.bound t hmem origin hjob with hp | hp | hp | hp <;> rw [hphase] at hp <;> cases hp
          rfl
  | happened hh =>
    refine ⟨hlatest, h.bound, ?_⟩
    simp only [Client.with_shared, happened_written hh]
    exact h.own
  | take => exact ⟨hlatest, h.bound, h.own⟩
  | @take_call s rest =>
    refine ⟨hlatest, fun t ht => ?_, h.own⟩
    rcases List.mem_append.1 ht with ht | ht
    · exact h.bound t ht
    · obtain rfl := List.mem_singleton.1 ht
      exact fun _ _ => Or.inl rfl

theorem delivered_init (v2 : Bool) : Delivered (Client.init v2) := by
  refine ⟨fun s hs => ?_, fun t ht => ?_, fun e he => ?_⟩
  · cases hs
  · cases ht
  · cases he

def step (c : Client) (a : Label) (c' : Client) : Prop := c.step a = some c'

/-- A result that is let to the lock only while no later socket is open is written, if at all, to the
    socket its call came on. -/
theorem results_on_own_socket {v2 : Bool} {as : List Label} {c : Client}
    (h : Run (restrict (fun c a => unsuperseded c a = true) step) (Client.init v2) as c) :
    ∀ origin s, (origin, s) ∈ c.shared.written → s = origin := by
  have hdelivered : Delivered c :=
    Run.invariant (I := Delivered) (fun hd hst => delivered_step hd hst.1 hst.2) (delivered_init v2) h
  intro origin s hmem
  exact (hdelivered.own _ hmem).symm

/-! ### A socket dies under a tool -/

/-- A socket that opens, and brings a tool call. -/
def one_call : List Label :=
  [.call .connect, .task 0 .connected, .task 0 (.configured none), .reader_start 0, .task 0 .healthy,
    .frame 0 .tool_call, .take]

/-- It dies, a send finds out, and the next one opens another socket. -/
def revived : List Label :=
  one_call ++ [.die 0, .reader_end 0 false (some 1006), .call (.send (.other true)), .task 2 .go,
    .task 2 .failed, .call (.send (.other true)), .task 3 .go, .task 3 .connected,
    .task 3 (.configured none), .reader_start 1, .task 3 .healthy, .task 3 .wrote]

theorem results_on_own_socket_call : ∃ c, Run (restrict (fun c a => unsuperseded c a = true) step)
      (Client.init false) (one_call ++ [.task 1 .go, .task 1 .go, .task 1 .wrote]) c ∧
    (0, 0) ∈ c.shared.written ∧ ∀ origin s, (origin, s) ∈ c.shared.written → s = origin := by
  obtain ⟨c, hrun, hwritten⟩ := Run.of_replay_any
    (fun c a => if unsuperseded c a = true then Client.step c a else none) (Client.init false)
    (one_call ++ [.task 1 .go, .task 1 .go, .task 1 .wrote])
    (fun c => decide ((0, 0) ∈ c.shared.written)) (by decide +kernel)
  have hrestricted := Run.restrict_mono hrun
  exact ⟨c, hrestricted, of_decide_eq_true hwritten, results_on_own_socket hrestricted⟩

/-- The tool comes to an end after the revival, and its result goes to the new socket. -/
theorem result_on_other_socket : ¬ ∀ as c, Run step (Client.init false) as c →
    ∀ origin s, (origin, s) ∈ c.shared.written → s = origin := by
  intro hall
  obtain ⟨c, hrun, hwritten⟩ := Run.of_replay_any Client.step (Client.init false)
    (revived ++ [.task 1 .go, .task 1 .go, .task 1 .wrote])
    (fun c => decide ((0, 1) ∈ c.shared.written)) (by decide +kernel)
  have hself := hall _ c hrun 0 1 (of_decide_eq_true hwritten)
  cases hself

end LocalVoice.SlvClient
