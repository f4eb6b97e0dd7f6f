import LocalVoice.AsrInferenceGate.Gate

/-! The gate is a bounded first-in first-out semaphore. One invariant carries it: while anybody is in
    the deque all permits are out, and the deque is in arrival order. A call that ends owns its
    permit for a moment longer (`spare`), until `_wake_next` has handed it on or freed it. -/

namespace LocalVoice.AsrInferenceGate
open LocalVoice.Lib

/-- The invariant of the gate with `spare` permits on their way from a call that has ended. -/
structure Inv (spare : ℕ) (s : Gate) : Prop where
  sorted : s.waiters.Pairwise (· < ·)
  queued : ∀ i ∈ s.waiters, ∃ fut mc, s.calls[i]? = some (.waiting fut mc) ∧ fut ≠ .result
  live : ∀ i, Live s.calls i → i ∈ s.waiters
  count : s.running = total Call.holds s.calls + spare
  bounded : s.running ≤ s.limits.concurrency
  busy : s.waiters ≠ [] → s.running = s.limits.concurrency
  short : ∀ m, s.limits.max_waiting = some m → s.waiters.length ≤ m
  in_order : s.admitted.Pairwise (· < ·)
  past : ∀ i ∈ s.admitted, i < s.calls.length
  before : ∀ i ∈ s.admitted, ∀ j, Live s.calls j → i < j
  named : ∀ i c, s.calls[i]? = some c → c.holds = 1 → i ∈ s.admitted

section
variable {s t : Gate} {i : ℕ} {c c' : Call} {spare : ℕ}

theorem inv_init (limits : Limits) : Inv 0 (Gate.init limits) := by
  constructor <;> simp [Gate.init, Live]

theorem Inv.waiter_lt (h : Inv spare s) (hi : i ∈ s.waiters) : i < s.calls.length := by
  obtain ⟨_, _, hget, _⟩ := h.queued i hi
  exact lt_length_of_get hget

/-- A call with a permit is not in the deque. -/
theorem Inv.not_queued (h : Inv spare s) (hi : s.calls[i]? = some c) (hc : c.holds = 1) :
    i ∉ s.waiters := by
  intro hq
  obtain ⟨fut, mc, hget, hfut⟩ := h.queued i hq
  obtain rfl : c = .waiting fut mc := by simpa [hi] using hget
  cases fut with
  | pending | cancelled => simp at hc
  | result => exact hfut rfl

/-- A call moves on, without becoming live and without a permit it did not have; who leaves the deque
    is not live. -/
theorem Inv.move {spare' n : ℕ} {ws : List ℕ} (h : Inv spare s) (hi : s.calls[i]? = some c)
    (hc : ∀ mc, c' ≠ .waiting .pending mc) (hholds : c'.holds ≤ c.holds)
    (hspare : spare' + c'.holds = spare + c.holds) (hsub : ws.Sublist s.waiters)
    (hstay : ∀ j ∈ s.waiters, i ≠ j → j ∈ ws)
    (hself : i ∈ ws → ∃ fut mc, c' = .waiting fut mc ∧ fut ≠ .result) :
    Inv spare' { s with waiters := ws, total_acquired := n, calls := s.calls.set i c' } := by
  have hlive : ∀ j, Live (s.calls.set i c') j ↔ i ≠ j ∧ Live s.calls j := fun j => live_set hi hc
  constructor
  case sorted => exact h.sorted.sublist hsub
  case queued =>
    intro j hj
    by_cases hij : i = j
    · subst hij
      obtain ⟨fut, mc, rfl, hfut⟩ := hself hj
      exact ⟨fut, mc, (get_set_iff hi).2 (.inl ⟨rfl, rfl⟩), hfut⟩
    · obtain ⟨fut, mc, hget, hfut⟩ := h.queued j (hsub.subset hj)
      exact ⟨fut, mc, (get_set_iff hi).2 (.inr ⟨hij, hget⟩), hfut⟩
  case live =>
    intro j hj
    obtain ⟨hne, hj⟩ := (hlive j).1 hj
    exact hstay j (h.live j hj) hne
  case count =>
    have hset : total Call.holds (s.calls.set i c') + c.holds = total Call.holds s.calls + c'.holds :=
      total_set hi
    have hcount := h.count
    simp only
    omega
  case bounded => exact h.bounded
  case busy =>
    intro hne
    refine h.busy fun he => hne ?_
    simpa [he] using hsub
  case short => exact fun m hm => Nat.le_trans hsub.length_le (h.short m hm)
  case in_order => exact h.in_order
  case past =>
    intro j hj
    simpa using h.past j hj
  case before => exact fun j hj k hk => h.before j hj k ((hlive k).1 hk).2
  case named =>
    intro j d hd hh
    rcases (get_set_iff hi).1 hd with ⟨rfl, rfl⟩ | ⟨_, hd⟩
    · have hone : c.holds = 1 := by
        have hle : c.holds ≤ 1 := by
          cases c with
          | waiting fut mc => cases fut <;> simp
          | inside | rejected | ended => simp
        omega
      exact h.named i c hi hone
    · exact h.named j d hd hh

/-- A call with a permit ends: the permit is the spare one. -/
theorem Inv.release (h : Inv 0 s) (hi : s.calls[i]? = some c) (hc : c.holds = 1) :
    Inv 1 { s with calls := s.calls.set i .ended } :=
  h.move hi (by simp) (by simp) (by simp [hc]) (List.Sublist.refl _) (fun _ hj _ => hj)
    fun hq => absurd hq (h.not_queued hi hc)

/-- `_wake_next` hands the spare permit to the first live waiter, or takes it back. -/
theorem Inv.wake_next (h : Inv 1 s) : Inv 0 s.wake_next := by
  rcases s.wake_cases s.waiters with ⟨dead, i, mc, rest, hw, hdead, hi, hwake⟩ | ⟨hdead, hwake⟩
  · have hlive : ∀ j, Live (s.calls.set i (.waiting .result mc)) j ↔ i ≠ j ∧ Live s.calls j :=
      fun j => live_set hi (by simp)
    have hsorted := h.sorted
    rw [hw, List.pairwise_append, List.pairwise_cons] at hsorted
    obtain ⟨_, ⟨hrest, hsorted⟩, _⟩ := hsorted
    have hmem : ∀ j ∈ rest, j ∈ s.waiters := fun j hj => by simp [hw, hj]
    -- who is still live behind the one that got the permit
    have hbehind : ∀ j, Live s.calls j → i ≠ j → j ∈ rest := by
      intro j hj hne
      have hjw := h.live j hj
      rw [hw, List.mem_append, List.mem_cons] at hjw
      rcases hjw with hjd | rfl | hjr
      · exact absurd hj (hdead j hjd)
      · exact absurd rfl hne
      · exact hjr
    rw [Gate.wake_next, hwake]
    constructor
    case sorted => exact hsorted
    case queued =>
      intro j hj
      obtain ⟨fut, mc', hget, hfut⟩ := h.queued j (hmem j hj)
      have hlt : i < j := hrest j hj
      exact ⟨fut, mc', (get_set_iff hi).2 (.inr ⟨by omega, hget⟩), hfut⟩
    case live => exact fun j hj => hbehind j ((hlive j).1 hj).2 ((hlive j).1 hj).1
    case count =>
      have hset : total Call.holds (s.calls.set i (.waiting .result mc)) + 0 =
          total Call.holds s.calls + 1 := total_set hi
      have hcount := h.count
      simp only
      omega
    case bounded => exact h.bounded
    case busy => exact fun _ => h.busy (by simp [hw])
    case short =>
      intro m hm
      have hlen := h.short m hm
      simp only [hw, List.length_append, List.length_cons] at hlen
      simp only
      omega
    case in_order =>
      refine List.pairwise_append.2 ⟨h.in_order, by simp, ?_⟩
      intro j hj k hk
      obtain rfl : k = i := by simpa using hk
      exact h.before j hj k ⟨mc, hi⟩
    case past =>
      intro j hj
      rw [List.length_set]
      rcases List.mem_append.1 hj with hj | hj
      · exact h.past j hj
      · obtain rfl : j = i := by simpa using hj
        exact lt_length_of_get hi
    case before =>
      intro j hj k hk
      obtain ⟨hne, hlk⟩ := (hlive k).1 hk
      rcases List.mem_append.1 hj with hj | hj
      · exact h.before j hj k hlk
      · obtain rfl : j = i := by simpa using hj
        exact hrest k (hbehind k hlk hne)
    case named =>
      intro j d hd hh
      rcases (get_set_iff hi).1 hd with ⟨rfl, rfl⟩ | ⟨_, hd⟩
      · simp
      · exact List.mem_append_left _ (h.named j d hd hh)
  · rw [Gate.wake_next, hwake]
    have hnone : ∀ j, ¬ Live s.calls j := fun j hj => hdead j (h.live j hj) hj
    have hcount := h.count
    have hbounded := h.bounded
    constructor
    case sorted => exact List.Pairwise.nil
    case queued => simp
    case live => exact fun j hj => absurd hj (hnone j)
    case count =>
      simp only
      omega
    case bounded =>
      simp only
      omega
    case busy => simp
    case short => simp
    case in_order => exact h.in_order
    case past => exact h.past
    case before => exact h.before
    case named => exact h.named

theorem Inv.queued_concat (h : Inv spare s) (hi : i ∈ s.waiters) :
    ∃ fut mc, (s.calls ++ [c])[i]? = some (.waiting fut mc) ∧ fut ≠ .result := by
  obtain ⟨fut, mc, hget, hfut⟩ := h.queued i hi
  exact ⟨fut, mc, get_concat_iff.2 (.inl hget), hfut⟩

theorem Inv.past_concat (h : Inv spare s) (hi : i ∈ s.admitted) :
    i < (s.calls ++ [c]).length := by
  have hlt := h.past i hi
  simp only [List.length_append, List.length_cons]
  omega

/-- A permit is free: nobody is in the deque, and the call goes in. -/
theorem Inv.enter (h : Inv 0 s) (hfree : s.running < s.limits.concurrency) (n : ℕ) :
    Inv 0 { s with running := s.running + 1, total_acquired := n, calls := s.calls ++ [.inside],
                   admitted := s.admitted ++ [s.calls.length] } := by
  have hempty : s.waiters = [] := by
    by_contra hne
    have hbusy := h.busy hne
    omega
  have hnone : ∀ j, ¬ Live (s.calls ++ [.inside]) j := by
    intro j hj
    have hold : Live s.calls j := by simpa [live_concat] using hj
    simpa [hempty] using h.live j hold
  have hcount := h.count
  constructor
  case sorted => exact h.sorted
  case queued => exact fun j hj => h.queued_concat hj
  case live => exact fun j hj => absurd hj (hnone j)
  case count =>
    simp only [total_concat, Call.holds_inside]
    omega
  case bounded =>
    simp only
    omega
  case busy => exact fun hne => absurd hempty hne
  case short => exact h.short
  case in_order =>
    refine List.pairwise_append.2 ⟨h.in_order, by simp, ?_⟩
    intro j hj k hk
    obtain rfl : k = s.calls.length := by simpa using hk
    exact h.past j hj
  case past =>
    intro j hj
    rcases List.mem_append.1 hj with hj | hj
    · exact h.past_concat hj
    · obtain rfl : j = s.calls.length := by simpa using hj
      simp
  case before => exact fun _ _ k hk => absurd hk (hnone k)
  case named =>
    intro j d hd hh
    rcases get_concat_iff.1 hd with hd | ⟨rfl, _⟩
    · exact List.mem_append_left _ (h.named j d hd hh)
    · simp

/-- The deque is full: the call is refused. -/
theorem Inv.reject (h : Inv 0 s) (depth n : ℕ) :
    Inv 0 { s with total_rejected := n, calls := s.calls ++ [.rejected depth] } := by
  have hlive : ∀ j, Live (s.calls ++ [.rejected depth]) j ↔ Live s.calls j := by
    simp [live_concat]
  have hcount := h.count
  constructor
  case sorted => exact h.sorted
  case queued => exact fun j hj => h.queued_concat hj
  case live => exact fun j hj => h.live j ((hlive j).1 hj)
  case count => simpa using hcount
  case bounded => exact h.bounded
  case busy => exact h.busy
  case short => exact h.short
  case in_order => exact h.in_order
  case past => exact fun j hj => h.past_concat hj
  case before => exact fun j hj k hk => h.before j hj k ((hlive k).1 hk)
  case named =>
    intro j d hd hh
    rcases get_concat_iff.1 hd with hd | ⟨_, rfl⟩
    · exact h.named j d hd hh
    · simp at hh

/-- All permits are out and there is room: the call is the last in the deque. -/
theorem Inv.enqueue (h : Inv 0 s) (hbusy : ¬ s.running < s.limits.concurrency)
    (hroom : s.full = none) (n : ℕ) :
    Inv 0 { s with waiters := s.waiters ++ [s.calls.length], max_observed_queue := n,
                   calls := s.calls ++ [.waiting .pending false] } := by
  have hcount := h.count
  have hbounded := h.bounded
  have hlive : ∀ j, Live (s.calls ++ [.waiting .pending false]) j ↔
      Live s.calls j ∨ j = s.calls.length := by simp [live_concat]
  constructor
  case sorted =>
    refine List.pairwise_append.2 ⟨h.sorted, by simp, ?_⟩
    intro j hj k hk
    obtain rfl : k = s.calls.length := by simpa using hk
    exact h.waiter_lt hj
  case queued =>
    intro j hj
    rcases List.mem_append.1 hj with hj | hj
    · exact h.queued_concat hj
    · obtain rfl : j = s.calls.length := by simpa using hj
      exact ⟨.pending, false, by simp, by simp⟩
  case live =>
    intro j hj
    rcases (hlive j).1 hj with hj | rfl
    · exact List.mem_append_left _ (h.live j hj)
    · simp
  case count => simpa using hcount
  case bounded => exact h.bounded
  case busy =>
    intro _
    simp only
    omega
  case short =>
    intro m hm
    have hlen : s.waiters.length < m := by
      simpa [Gate.full, show s.limits.max_waiting = some m from hm, Option.filter] using hroom
    simp only [List.length_append, List.length_cons, List.length_nil]
    omega
  case in_order => exact h.in_order
  case past => exact fun j hj => h.past_concat hj
  case before =>
    intro j hj k hk
    rcases (hlive k).1 hk with hk | rfl
    · exact h.before j hj k hk
    · exact h.past j hj
  case named =>
    intro j d hd hh
    rcases get_concat_iff.1 hd with hd | ⟨_, rfl⟩
    · exact h.named j d hd hh
    · simp at hh

theorem Inv.arrive (h : Inv 0 s) : Inv 0 s.arrive := by
  unfold Gate.arrive
  split
  · next hfree => exact h.enter hfree _
  · next hbusy =>
    split
    · exact h.reject _ _
    · next hroom => exact h.enqueue hbusy hroom _

/-- A waiter's task is cancelled: its future is no longer live, or the request stays on the task. -/
theorem Inv.cancel (h : Inv 0 s) (hstep : s.cancel i = some t) : Inv 0 t := by
  unfold Gate.cancel at hstep
  split at hstep
  · next mc hi =>
    obtain rfl := Option.some.inj hstep
    exact h.move hi (by simp) (by simp) (by simp) (List.Sublist.refl _) (fun _ hj _ => hj)
      fun _ => ⟨.cancelled, mc, rfl, by simp⟩
  · next fut mc hne hi =>
    obtain rfl := Option.some.inj hstep
    have hholds : (Call.waiting fut true).holds = (Call.waiting fut mc).holds := by
      cases fut <;> rfl
    refine h.move hi ?_ (Nat.le_of_eq hholds) (by rw [hholds]) (List.Sublist.refl _) (fun _ hj _ => hj) ?_
    · intro mc' he
      obtain ⟨rfl, rfl⟩ := Call.waiting.inj he
      exact hne rfl
    · intro hq
      obtain ⟨f, m, hget, hf⟩ := h.queued i hq
      obtain ⟨rfl, rfl⟩ : fut = f ∧ mc = m := by simpa [hi] using hget
      exact ⟨fut, true, rfl, hf⟩
  · obtain rfl := Option.some.inj hstep
    exact h
  · simp at hstep

/-- A waiter resumes: with its permit, giving it back, or leaving the deque. -/
theorem Inv.resume (h : Inv 0 s) (hstep : s.resume i = some t) : Inv 0 t := by
  unfold Gate.resume at hstep
  split at hstep
  · next hi =>
    obtain rfl := Option.some.inj hstep
    exact h.move hi (by simp) (by simp) (by simp) (List.Sublist.refl _) (fun _ hj _ => hj)
      fun hq => absurd hq (h.not_queued hi rfl)
  · next hi =>
    obtain rfl := Option.some.inj hstep
    exact (h.release hi rfl).wake_next
  · next mc hi =>
    obtain rfl := Option.some.inj hstep
    have hnodup : s.waiters.Nodup := h.sorted.imp Nat.ne_of_lt
    exact h.move hi (by simp) (by simp) (by simp) List.erase_sublist
      (fun j hj hne => hnodup.mem_erase_iff.2 ⟨hne.symm, hj⟩)
      fun hq => absurd rfl (hnodup.mem_erase_iff.1 hq).1
  · simp at hstep

theorem Inv.leave (h : Inv 0 s) (hstep : s.leave i = some t) : Inv 0 t := by
  unfold Gate.leave at hstep
  split at hstep
  · next hi =>
    obtain rfl := Option.some.inj hstep
    exact (h.release hi rfl).wake_next
  · simp at hstep

theorem inv_step {e : Event} (h : Inv 0 s) (hstep : s.step e = some t) : Inv 0 t := by
  cases e with
  | arrive =>
    obtain rfl : s.arrive = t := by simpa [Gate.step] using hstep
    exact h.arrive
  | cancel i => exact h.cancel hstep
  | resume i => exact h.resume hstep
  | leave i => exact h.leave hstep

/-- Every interleaving keeps the invariant. -/
theorem inv_of_runs {limits : Limits} {es : List Event} (h : Runs limits es s) : Inv 0 s :=
  Run.invariant (I := Inv 0) inv_step (inv_init limits) h

/-! The limits never change -/

theorem wake_next_limits (s : Gate) : s.wake_next.limits = s.limits := by
  rcases s.wake_cases s.waiters with ⟨_, _, _, _, _, _, _, hwake⟩ | ⟨_, hwake⟩ <;>
    rw [Gate.wake_next, hwake]

theorem arrive_limits (s : Gate) : s.arrive.limits = s.limits := by
  unfold Gate.arrive
  split
  · rfl
  · split <;> rfl

theorem step_limits {e : Event} (hstep : s.step e = some t) : t.limits = s.limits := by
  cases e with
  | arrive =>
    obtain rfl : s.arrive = t := by simpa [Gate.step] using hstep
    exact arrive_limits s
  | cancel i =>
    simp only [Gate.step, Gate.cancel] at hstep
    split at hstep <;> first | simp at hstep; done | obtain rfl := Option.some.inj hstep; rfl
  | resume i =>
    simp only [Gate.step, Gate.resume] at hstep
    split at hstep
    · obtain rfl := Option.some.inj hstep
      rfl
    · obtain rfl := Option.some.inj hstep
      exact wake_next_limits _
    · obtain rfl := Option.some.inj hstep
      rfl
    · simp at hstep
  | leave i =>
    simp only [Gate.step, Gate.leave] at hstep
    split at hstep
    · obtain rfl := Option.some.inj hstep
      exact wake_next_limits _
    · simp at hstep

theorem limits_of_runs {limits : Limits} {es : List Event} (h : Runs limits es s) :
    s.limits = limits :=
  Run.invariant (I := fun u => u.limits = limits) (fun hu hs => (step_limits hs).trans hu) rfl h

end

/-! The gate's contract -/

/-- How many calls are inside. -/
def Gate.inside (s : Gate) : ℕ := total Call.is_inside s.calls

/-- How many calls have been given a permit and not resumed. -/
def Gate.granted (s : Gate) : ℕ := total Call.granted s.calls

/-- Whatever the interleaving of arrivals, cancellations, resumptions and ends: the bound on the
    calls inside, the meaning of `running`, no idle permit while a live waiter is queued, permits in
    arrival order, the bound on the deque, and all permits back at the end. -/
theorem fifo_semaphore {limits : Limits} {es : List Event} {s : Gate} (h : Runs limits es s) :
    s.inside ≤ limits.concurrency ∧
    s.running = s.inside + s.granted ∧
    (s.running < limits.concurrency → ∀ i, ¬ Live s.calls i) ∧
    (s.admitted.Pairwise (· < ·) ∧
      (∀ i c, s.calls[i]? = some c → c.holds = 1 → i ∈ s.admitted) ∧
      ∀ i ∈ s.admitted, ∀ j, Live s.calls j → i < j) ∧
    (∀ m, limits.max_waiting = some m → s.waiters.length ≤ m) ∧
    ((∀ c ∈ s.calls, c.finished) → s.running = 0) := by
  have hinv : Inv 0 s := inv_of_runs h
  obtain rfl : s.limits = limits := limits_of_runs h
  have hsum : total Call.holds s.calls = s.inside + s.granted := total_add
  have hcount := hinv.count
  have hbounded := hinv.bounded
  refine ⟨by omega, by omega, ?_, ⟨hinv.in_order, hinv.named, hinv.before⟩, hinv.short, ?_⟩
  · intro hfree i hi
    have hbusy := hinv.busy (List.ne_nil_of_mem (hinv.live i hi))
    omega
  · intro hdone
    have hzero : total Call.holds s.calls = 0 :=
      total_eq_zero fun c hc => Call.holds_of_finished (hdone c hc)
    omega

/-- One permit and two places: the first waiter is cancelled, the second is granted and then
    cancelled before it resumes, and the permit comes back. -/
def passed_on : List Event :=
  [.arrive, .arrive, .arrive, .arrive, .cancel 1, .leave 0, .resume 1, .cancel 2, .resume 2]

theorem fifo_semaphore_passed_on :
    ∃ s, Runs ⟨1, some 2, by decide⟩ passed_on s ∧ s.admitted = [0, 2] ∧
      s.calls = [.ended, .ended, .ended, .rejected 2] ∧ s.running = 0 := by
  have h : Runs ⟨1, some 2, by decide⟩ passed_on
      ⟨⟨1, some 2, by decide⟩, 0, [], 1, 1, 2, [.ended, .ended, .ended, .rejected 2], [0, 2]⟩ :=
    Run.of_replay rfl
  exact ⟨_, h, rfl, rfl, (fifo_semaphore h).2.2.2.2.2 (by decide)⟩

end LocalVoice.AsrInferenceGate
