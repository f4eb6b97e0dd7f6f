import LocalVoice.WorkerIO.Slots

/-! What the worker is asked to do at a time. A request is outstanding from its line on stdin to its
    cancel line, or to the terminal event the caller reads. The `finally` arm gives the permit back
    before it writes the cancel line, so in between a request is outstanding that holds no permit;
    a caller on another event loop that takes the permit and writes first makes one too many. -/

namespace LocalVoice.WorkerIO
open LocalVoice.Lib

/-- The worker has the request, no cancel line for it, and no terminal event has been read. -/
def Call.outstanding (c : Call) : ℕ :=
  if c.request_written = true ∧ c.cancel_written = false ∧ c.answered = false then 1 else 0

/-- The requests the worker is asked to serve at once. -/
def outstanding (s : Pool) : ℕ := total Call.outstanding s.calls

/-- An outstanding request whose call has given its permit back and not yet written the cancel
    line. -/
def Call.lingering (c : Call) : ℕ := if c.phase = .released then c.outstanding else 0

def lingering (s : Pool) : ℕ := total Call.lingering s.calls

/-- The phases in which a request may be outstanding. -/
def Phase.exposed : Phase → Bool
  | .waiting | .taken _ | .yielded _ | .leaving _ | .popped _ | .released => true
  | _ => false

/-- The phases after a terminal event. -/
def Phase.natural : Phase → Bool
  | .yielded b | .leaving b | .popped b => b
  | _ => false

/-- A request is outstanding only in those phases, and not after a terminal event. -/
structure Call.Covered (c : Call) : Prop where
  exposed : c.phase.exposed = false → c.outstanding = 0
  natural : c.phase.natural = true → c.answered = true

section
variable {closed broken : Bool} {m : Move} {c c' : Call} {e : Effect}

theorem Call.outstanding_le_one (c : Call) : c.outstanding ≤ 1 := by
  unfold outstanding
  split <;> simp

/-- While stdin takes lines, the calls of `send_request` stay covered. -/
theorem Call.move_covered (h : c.move false false m = some (c', e)) (hsync : c.sync = false)
    (hc : c.Covered) : c'.Covered := by
  obtain ⟨hexp, hnat⟩ := hc
  unfold Call.move Call.goes at h
  split at h <;> (try split at h) <;> (try split at h) <;> cases h <;> constructor <;>
    simp_all [Phase.exposed, Phase.natural, Call.outstanding]

/-- Only the write of a request makes more of them outstanding. -/
theorem Call.move_outstanding (h : c.move closed broken m = some (c', e)) :
    c'.outstanding ≤ c.outstanding ∨
      m = .write ∧ c.phase = .registered ∧ c'.phase = .waiting ∧ closed = false ∧ broken = false := by
  unfold Call.move Call.goes at h
  split at h <;> (try split at h) <;> (try split at h) <;> cases h <;>
    first
    | exact .inl (Nat.le_refl _)
    | (right; simp_all; done)
    | (left; unfold Call.outstanding; split <;> simp_all)

end

/-! Runs of `send_request` calls -/

/-- A request is about to be written. -/
def Action.writes : Action → Bool
  | .move _ .write => true
  | _ => false

/-- When a request is written, as many permits are free as there are requests lingering. -/
def Room (s : Pool) (a : Action) : Prop := a.writes = true → lingering s ≤ s.available

instance (s : Pool) (a : Action) : Decidable (Room s a) := inferInstanceAs (Decidable (_ → _))

/-- All calls are `send_request` calls. -/
def Async (s : Pool) : Prop := ∀ c ∈ s.calls, c.sync = false

/-- While stdin takes lines, every call is covered. -/
def AllCovered (s : Pool) : Prop :=
  s.closed = false → s.broken = false →
    ∀ (i : ℕ) (c : Call), s.calls[i]? = some c → c.Covered

section
variable {s t : Pool} {a : Action}

/-- What is closed or broken stays so. -/
theorem step_shut (h : Steps s a t) :
    (t.closed = false → s.closed = false) ∧ (t.broken = false → s.broken = false) := by
  cases a with
  | move i m =>
    obtain ⟨_, _, _, _, _, ht, _⟩ := move_cases h
    rw [ht]
    exact ⟨id, id⟩
  | send_request id ser | request id ser =>
    obtain rfl := Option.some.inj h
    unfold Pool.start
    split
    · exact ⟨fun h => h, fun h => h⟩
    · split <;> exact ⟨fun h => h, fun h => h⟩
  | stdin_breaks =>
    obtain rfl := Option.some.inj h
    exact ⟨id, fun hb => by simp at hb⟩
  | close =>
    obtain rfl := Option.some.inj h
    exact ⟨fun hc => by simp at hc, id⟩
  | emit line =>
    simp only [Steps, Pool.step] at h
    split at h
    · split at h <;> cases h <;> exact ⟨id, id⟩
    · cases h
  | put_line | sweep | close_clear k | close_put k =>
    simp only [Steps, Pool.step] at h
    split at h
    · cases h
      exact ⟨id, id⟩
    · cases h

theorem step_async (h : Steps s a t) (ht : Async t) : Async s := by
  intro c hc
  obtain ⟨j, hj⟩ := List.getElem?_of_mem hc
  obtain ⟨c', hc', _, hsync⟩ := step_calls h hj
  exact hsync.symm.trans (ht c' (List.mem_of_getElem? hc'))

theorem Call.Covered.of_bare {c c' : Call} (h : c.Covered) (heq : c'.bare = c.bare) : c'.Covered := by
  rw [Call.of_bare heq]
  exact ⟨h.exposed, h.natural⟩

theorem Call.Covered.new {sync ser : Bool} {id : Option String} {p : Phase} (h : p.first = true) :
    (Call.new sync id ser p).Covered := by
  refine ⟨fun _ => rfl, fun hnat => ?_⟩
  cases p <;> simp_all [Phase.first, Phase.natural, Call.new]

theorem step_covered (h : Steps s a t) (hasync : Async s) (hs : AllCovered s) : AllCovered t := by
  intro hclosed hbroken j c hc
  have hcl := (step_shut h).1 hclosed
  have hbr := (step_shut h).2 hbroken
  by_cases hmove : ∀ i m, a ≠ .move i m
  · obtain ⟨_, ⟨sync, id, ser, p, hcalls, hp, _⟩ | ⟨hbare, _⟩⟩ := other_cases h hmove
    · rw [hcalls] at hc
      rcases get_concat_iff.1 hc with hc | ⟨_, rfl⟩
      · exact hs hcl hbr j c hc
      · exact Call.Covered.new hp
    · obtain ⟨d, hd, heq⟩ := hbare.symm.get hc
      exact (hs hcl hbr j d hd).of_bare heq.symm
  · push Not at hmove
    obtain ⟨i, m, rfl⟩ := hmove
    obtain ⟨d, d', e, hd, hm, ht', _⟩ := move_cases h
    have hcalls : t.calls = s.calls.set i d' := by rw [ht']
    rw [hcl, hbr] at hm
    rw [hcalls] at hc
    rcases (get_set_iff hd).1 hc with ⟨_, rfl⟩ | ⟨_, hc⟩
    · exact Call.move_covered hm (hasync d (List.mem_of_getElem? hd)) (hs hcl hbr i d hd)
    · exact hs hcl hbr j c hc

/-- While stdin takes lines, what is outstanding holds a permit or lingers. -/
theorem outstanding_le (hs : AllCovered s) (hclosed : s.closed = false) (hbroken : s.broken = false) :
    outstanding s ≤ permits s + lingering s := by
  have hpoint : ∀ c ∈ s.calls, c.outstanding ≤ c.phase.permit + c.lingering := by
    intro c hc
    obtain ⟨i, hi⟩ := List.getElem?_of_mem hc
    obtain ⟨hexp, _⟩ := hs hclosed hbroken i c hi
    have hone := c.outstanding_le_one
    cases hp : c.phase <;>
      simp_all [Phase.exposed, Phase.permit, Call.lingering]
  have hsum : total (fun c => c.phase.permit + c.lingering) s.calls =
      permits s + lingering s := total_add
  exact hsum ▸ total_le_total hpoint

/-- A step that finds room keeps the bound. -/
theorem step_outstanding (h : Steps s a t) (hroom : Room s a)
    (hperm : s.available + permits s = s.max_slots) (hcov : AllCovered t)
    (hs : outstanding s ≤ s.max_slots) : outstanding t ≤ t.max_slots := by
  by_cases hmove : ∀ i m, a ≠ .move i m
  · obtain ⟨hmax, ⟨sync, id, ser, p, hcalls, _⟩ | ⟨hbare, _⟩⟩ := other_cases h hmove
    · have hsum : outstanding t = outstanding s := by
        simp [outstanding, hcalls, Call.new, Call.outstanding]
      omega
    · have hsum : outstanding t = outstanding s := hbare.total fun _ => rfl
      omega
  · push Not at hmove
    obtain ⟨i, m, rfl⟩ := hmove
    obtain ⟨hmax, hbal⟩ := step_permits h
    obtain ⟨d, d', e, hd, hm, ht, _⟩ := move_cases h
    have hcalls : t.calls = s.calls.set i d' := by rw [ht]
    rcases Call.move_outstanding hm with hle | ⟨rfl, hreg, hwait, hclosed, hbroken⟩
    · have hset : outstanding t + d.outstanding = outstanding s + d'.outstanding := by
        rw [outstanding, hcalls]
        exact total_set hd
      omega
    · -- the line is written: its call holds a permit, and the others are covered
      have hpermits : permits t + d.phase.permit = permits s + d'.phase.permit := by
        rw [permits, hcalls]
        exact total_set hd
      have hlinger : lingering t + d.lingering = lingering s + d'.lingering := by
        rw [lingering, hcalls]
        exact total_set hd
      have hcover : outstanding t ≤ permits t + lingering t :=
        outstanding_le hcov (by rw [ht]; exact hclosed) (by rw [ht]; exact hbroken)
      have hfree : lingering s ≤ s.available := hroom rfl
      simp only [Call.lingering, hreg, hwait, reduceCtorEq, if_false] at hlinger
      simp only [hreg, hwait, Phase.permit] at hpermits
      omega

end

/-- In a run of `send_request` calls in which every write finds room, the worker never has more than
    `max_slots` requests at a time. -/
theorem never_oversubscribed {concurrency : ℤ} {queue : Bool} {as : List Action} {s : Pool}
    (h : Run (restrict Room Steps) (.init concurrency queue) as s) (hasync : Async s) :
    outstanding s ≤ s.max_slots := by
  have hinv : Async s → s.available + permits s = s.max_slots ∧ AllCovered s ∧
      outstanding s ≤ s.max_slots := by
    clear hasync
    induction h with
    | nil =>
      refine fun _ => ⟨rfl, ?_, Nat.zero_le _⟩
      intro _ _ i c hc
      simp [Pool.init] at hc
    | snoc hrun hst ih =>
      obtain ⟨hroom, hst⟩ := hst
      intro ht
      have hs := step_async hst ht
      obtain ⟨hperm, hcov, hle⟩ := ih hs
      have hcov' := step_covered hst hs hcov
      obtain ⟨hmax, hsum⟩ := step_permits hst
      exact ⟨by omega, hcov', step_outstanding hst hroom hperm hcov' hle⟩
  exact (hinv hasync).2.2

/-- On one event loop nobody writes between a call's permit and its cancel line, since the `finally`
    arm does not suspend. -/
def OneLoop (s : Pool) (a : Action) : Prop :=
  a.writes = true → ∀ c ∈ s.calls, c.phase ≠ .released

theorem OneLoop.room {s : Pool} {a : Action} (h : OneLoop s a) : Room s a := by
  intro hwrites
  have hzero : lingering s = 0 := total_eq_zero fun c hc => by
    simp [Call.lingering, h hwrites c hc]
  omega

/-- One slot, two callers on different event loops: the first consumer stops after a chunk, and the
    second request is written between its permit and its cancel line. -/
def overtaken : List Action :=
  [.send_request "a" true, .send_request "b" true, .move 0 .thread_start, .move 1 .thread_start] ++
    goes_ahead 0 ++
    [.emit ⟨some "a", false, 0⟩, .put_line, .move 0 .take, .move 0 .deliver, .move 0 .stop,
      .move 0 .pop, .move 0 .release] ++ goes_ahead 1

theorem overtaken_oversubscribes :
    ¬ ∀ (concurrency : ℤ) (queue : Bool) (as : List Action) (s : Pool),
      Runs concurrency queue as s → Async s → outstanding s ≤ s.max_slots := by
  intro hall
  have hrun : Runs 1 true overtaken
      { Pool.init 1 true with
        available := 0, inflight := Dict.empty.set "b" 1, emitted := [⟨some "a", false, 0⟩],
        calls := [{ Call.new false (some "a") true .released with
            received := [⟨some "a", false, 0⟩], request_written := true },
          { Call.new false (some "b") true .waiting with request_written := true }] } :=
    Run.of_replay rfl
  exact absurd (hall _ _ _ _ hrun (by simp [Async, Call.new])) (by decide)

/-- The same consumers on one event loop: the cancel line is written first. -/
def in_order : List Action :=
  [.send_request "a" true, .send_request "b" true, .move 0 .thread_start, .move 1 .thread_start] ++
    goes_ahead 0 ++
    [.emit ⟨some "a", false, 0⟩, .put_line, .move 0 .take, .move 0 .deliver, .move 0 .stop,
      .move 0 .pop, .move 0 .release, .move 0 .cancel_line] ++ goes_ahead 1

theorem never_oversubscribed_in_order :
    ∃ s, Run (restrict Room Steps) (.init 1 true) in_order s ∧ Async s ∧
      s.calls.map Call.phase = [.ended, .waiting] ∧ outstanding s ≤ s.max_slots := by
  have hrun : Run (restrict Room Steps) (.init 1 true) in_order
      { Pool.init 1 true with
        available := 0, inflight := Dict.empty.set "b" 1, emitted := [⟨some "a", false, 0⟩],
        calls := [{ Call.new false (some "a") true .ended with
            received := [⟨some "a", false, 0⟩], request_written := true, cancel_written := true },
          { Call.new false (some "b") true .waiting with request_written := true }] } :=
    Run.of_replay_if rfl
  refine ⟨_, hrun, ?_, rfl, never_oversubscribed hrun ?_⟩ <;> simp [Async, Call.new]

end LocalVoice.WorkerIO
