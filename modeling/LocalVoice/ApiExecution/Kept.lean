import LocalVoice.ApiExecution.Leases

/-! The leases over a whole run. `leases_kept` is for runs in which no cancellation comes to `_decode`
    with its thread in the backend, none to the exit of `manager.acquire()`, and no thread takes a job
    whose future was cancelled; `decode_outlives_leases` cancels a decode that is in the backend. -/

namespace LocalVoice.ApiExecution
open LocalVoice.Lib LocalVoice.BackendCoordinator

/-- Every lease and slot that was taken and not given back is one request's, a thread in the backend is
    there for a request that has its leases, and a native call that was over before the disconnect was
    seen is what its caller gets, unless that was cancelled. -/
structure State.Kept (serial : Bool) (s : State) : Prop where
  leases : ∀ k, s.inflight_http k = total (Call.lease k) s.calls
  slot : serial = true → (if s.locked then 1 else 0) = total Call.holds_slot s.calls
  inside : ∀ c ∈ s.calls, c.thread = .inside → c.holds_slot = 1 ∧ c.leased = c.managed
  own : ∀ c ∈ s.calls, ∀ o, c.stage = .returned o → c.native_first = true →
    o = .cancelled ∨ ∃ ok, c.thread = .left ok ∧ o = .returned (.native ok)

namespace State

/-- What every step keeps. -/
structure Counted (serial : Bool) (s : State) : Prop where
  ok : ∀ (i : ℕ) (c : Call), s.calls[i]? = some c → c.Ok
  managed : ∀ (i : ℕ) (c : Call), s.calls[i]? = some c → ∀ o, c.stage = .leaving o → c.managed = true
  leases : ∀ k, s.inflight_http k = total (Call.lease k) s.calls
  slot : serial = true → (if s.locked then 1 else 0) = total Call.holds_slot s.calls

section
variable {serial : Bool} {s t : State} {i : ℕ} {c c' : Call} {o : Outcome}

/-! ### Counting -/

/-- A request that moves, with its lease and slot. -/
theorem Counted.set (h : Counted serial s) (hc : s.calls[i]? = some c) (hok : c'.Ok)
    (hmanaged : ∀ o, c'.stage = .leaving o → c'.managed = true) (hcalls : t.calls = s.calls.set i c')
    (hleases : ∀ k, t.inflight_http k + c.lease k = s.inflight_http k + c'.lease k)
    (hslot : serial = true → (if t.locked then 1 else 0) + c.holds_slot =
      (if s.locked then 1 else 0) + c'.holds_slot) : Counted serial t := by
  refine ⟨?_, ?_, ?_, ?_⟩
  · intro j d hd
    rw [hcalls] at hd
    rcases (get_set_iff hc).1 hd with ⟨-, rfl⟩ | ⟨-, hd⟩
    · exact hok
    · exact h.ok j d hd
  · intro j d hd
    rw [hcalls] at hd
    rcases (get_set_iff hc).1 hd with ⟨-, rfl⟩ | ⟨-, hd⟩
    · exact hmanaged
    · exact h.managed j d hd
  · intro k
    have hset : total (Call.lease k) t.calls + c.lease k = total (Call.lease k) s.calls + c'.lease k := by
      rw [hcalls]
      exact total_set hc
    have hk := h.leases k
    have hk' := hleases k
    omega
  · intro hs
    have hset : total Call.holds_slot t.calls + c.holds_slot =
        total Call.holds_slot s.calls + c'.holds_slot := by
      rw [hcalls]
      exact total_set hc
    have hk := h.slot hs
    have hk' := hslot hs
    omega

/-- A request that moves without giving or taking anything. -/
theorem Counted.keep (h : Counted serial s) (hc : s.calls[i]? = some c) (hok : c'.Ok)
    (hmanaged : ∀ o, c'.stage = .leaving o → c'.managed = true)
    (hlease : ∀ k, c'.lease k = c.lease k) (hslot : c'.holds_slot = c.holds_slot) :
    Counted serial (s.set_call i c') :=
  h.set hc hok hmanaged rfl (fun k => by rw [hlease k]; rfl) fun _ => by rw [hslot]; rfl

theorem exit_managed (c : Call) (o : Outcome) :
    ∀ o', (c.exit o).stage = .leaving o' → (c.exit o).managed = true := by
  intro o' ho'
  unfold Call.exit at ho' ⊢
  simp only at ho' ⊢
  split at ho'
  · assumption
  · cases ho'

theorem exit_leased (c : Call) (o : Outcome) : (c.exit o).leased = c.managed := by
  unfold Call.exit Call.leased
  cases c.managed <;> simp

theorem exit_holds_slot (c : Call) (o : Outcome) : (c.exit o).holds_slot = 0 := by
  unfold Call.exit Call.holds_slot Call.in_body
  cases c.managed <;> simp

/-- A request in its body holds the coordinator's lock. -/
theorem Counted.locked (h : Counted serial s) (hs : serial = true) (hc : s.calls[i]? = some c)
    (hbody : c.in_body = true) : s.locked = true := by
  have hset : total Call.holds_slot (s.calls.set i (c.exit .failed)) + c.holds_slot =
      total Call.holds_slot s.calls + (c.exit .failed).holds_slot := total_set hc
  have hslot := h.slot hs
  have hone : c.holds_slot = 1 := by simp [Call.holds_slot, hbody]
  rw [exit_holds_slot, hone] at hset
  by_contra hfree
  rw [if_neg hfree] at hslot
  omega

/-- The slot is given back at the end of the body, or at once. -/
theorem Counted.end_body (h : Counted serial s) (hc : s.calls[i]? = some c) (hok : (c.exit o).Ok)
    (hleased : c.leased = c.managed) (hslot : c.in_body = true ∨ (serial && s.locked) = false) :
    Counted serial (s.end_body i c o) := by
  refine h.set hc hok (exit_managed c o) rfl ?_ ?_
  · intro k
    have hlease : (c.exit o).lease k = c.lease k := by
      unfold Call.lease
      rw [exit_leased, hleased]
      rfl
    rw [hlease]
    rfl
  · intro hs
    rw [exit_holds_slot]
    by_cases hbody : c.in_body = true
    · simp [State.end_body, h.locked hs hc hbody, Call.holds_slot, hbody]
    · have hfree : s.locked = false := by
        rcases hslot with hb | hfree
        · exact absurd hb hbody
        · simpa [hs] using hfree
      simp [State.end_body, hfree, Call.holds_slot, hbody]

/-! ### The steps -/

theorem call_counted {kind : Kind} {managed : Bool} (h : Counted serial s)
    (hst : s.next serial (.call kind managed) = some t) : Counted serial t := by
  obtain rfl := Option.some.inj hst
  refine ⟨?_, ?_, ?_, ?_⟩
  · intro j d hd
    rcases get_concat_iff.1 hd with hd | ⟨-, rfl⟩
    · exact h.ok j d hd
    · exact Call.Ok.new kind managed
  · intro j d hd o ho
    rcases get_concat_iff.1 hd with hd | ⟨-, rfl⟩
    · exact h.managed j d hd o ho
    · cases ho
  · intro k
    rw [total_concat]
    exact h.leases k
  · intro hs
    rw [total_concat]
    exact h.slot hs

theorem enter_counted {prepared : Bool} (h : Counted serial s)
    (hst : s.next serial (.enter i prepared) = some t) : Counted serial t := by
  obtain ⟨c, hc, hst⟩ := Option.bind_eq_some_iff.1 hst
  obtain ⟨hstage, hst⟩ := Option.ite_none_right_eq_some.1 hst
  obtain rfl := Option.some.inj hst
  have hok := h.ok i c hc
  set c' : Call := if prepared then { c with stage := .queued } else c.exit .failed with hc'
  have hnext : c'.Ok ∧ (∀ o, c'.stage = .leaving o → c'.managed = true) ∧ c'.leased = c.managed ∧
      c'.kind = c.kind ∧ c'.holds_slot = 0 := by
    rw [hc']
    cases prepared with
    | true =>
      obtain ⟨hthread, howner⟩ := hok.before (Or.inl hstage)
      refine ⟨hok.stage .queued (fun _ => hthread) (fun _ => howner) ?_ (by simp), by simp, rfl, rfl, rfl⟩
      exact fun _ => ⟨Or.inl howner, by simp [hthread]⟩
    | false =>
      exact ⟨hok.exit_before (Or.inl hstage) id, exit_managed c _, exit_leased c _, rfl,
        exit_holds_slot c _⟩
  obtain ⟨hok', hmanaged, hleased, hkind, hslot⟩ := hnext
  have hbefore : c.leased = false ∧ c.holds_slot = 0 := by
    simp [Call.leased, Call.holds_slot, Call.in_body, hstage]
  refine h.set hc hok' hmanaged rfl ?_ ?_
  · intro k
    unfold Call.lease
    rw [hleased, hbefore.1, hkind]
    cases hm : c.managed with
    | false => simp
    | true =>
      by_cases hk : c.kind.slot = k
      · subst hk
        simp
      · simp [hk, Function.update_of_ne (Ne.symm hk)]
  · intro _
    rw [hslot, hbefore.2]
    rfl

theorem refuse_counted (h : Counted serial s) (hst : s.next serial (.refuse i) = some t) :
    Counted serial t := by
  obtain ⟨c, hc, hst⟩ := Option.bind_eq_some_iff.1 hst
  obtain ⟨hstage, hst⟩ := Option.ite_none_right_eq_some.1 hst
  obtain rfl := Option.some.inj hst
  have hok := h.ok i c hc
  obtain ⟨hthread, howner⟩ := hok.before (Or.inl hstage)
  refine h.keep hc (hok.stage _ (by simp) (by simp) (fun _ => ⟨Or.inl howner, by simp [hthread]⟩) ?_)
    (by simp) (fun k => by simp [Call.lease, Call.leased, hstage])
    (by simp [Call.holds_slot, Call.in_body, hstage])
  intro o ho
  obtain rfl : Outcome.failed = o := by simpa using ho
  exact hthread

theorem admitted_counted (h : Counted serial s) (hst : s.next serial (.admitted i) = some t) :
    Counted serial t := by
  obtain ⟨c, hc, hst⟩ := Option.bind_eq_some_iff.1 hst
  obtain ⟨⟨hstage, hfree⟩, hst⟩ := Option.ite_none_right_eq_some.1 hst
  have hok := h.ok i c hc
  have hbefore : c.leased = c.managed ∧ c.holds_slot = 0 := by
    simp [Call.leased, Call.holds_slot, Call.in_body, hstage]
  have hlocked : serial = true → s.locked = false := fun hs => by simpa [hs] using hfree
  have hin : ∀ c' : Call, c'.Ok → (∀ o, c'.stage = .leaving o → c'.managed = true) →
      c'.leased = c.managed → c'.kind = c.kind → c'.holds_slot = 1 →
      Counted serial { s.set_call i c' with locked := serial } := by
    intro c' hok' hmanaged hleased hkind hslot
    refine h.set hc hok' hmanaged rfl ?_ ?_
    · intro k
      unfold Call.lease
      rw [hleased, hkind, hbefore.1]
      rfl
    · intro hs
      rw [hslot, hbefore.2]
      simp [hs, hlocked hs]
  split at hst
  · obtain rfl := Option.some.inj hst
    exact hin _ (hok.admit_asr hstage) (by simp) rfl rfl rfl
  · obtain rfl := Option.some.inj hst
    exact hin _ (hok.admit_kokoro hstage) (by simp) rfl rfl rfl
  · cases hst

theorem admit_inline_counted {ok : Bool} (h : Counted serial s)
    (hst : s.next serial (.admit_inline i ok) = some t) : Counted serial t := by
  obtain ⟨c, hc, hst⟩ := Option.bind_eq_some_iff.1 hst
  obtain ⟨⟨hstage, hfree, -⟩, hst⟩ := Option.ite_none_right_eq_some.1 hst
  obtain rfl := Option.some.inj hst
  exact h.end_body hc ((h.ok i c hc).exit_before (Or.inr hstage) Or.inr)
    (by simp [Call.leased, hstage]) (Or.inr hfree)

theorem admit_fail_counted (h : Counted serial s) (hst : s.next serial (.admit_fail i) = some t) :
    Counted serial t := by
  obtain ⟨c, hc, hst⟩ := Option.bind_eq_some_iff.1 hst
  obtain ⟨⟨hstage, hfree⟩, hst⟩ := Option.ite_none_right_eq_some.1 hst
  obtain rfl := Option.some.inj hst
  exact h.end_body hc ((h.ok i c hc).exit_before (Or.inr hstage) id)
    (by simp [Call.leased, hstage]) (Or.inr hfree)

theorem wake_counted (h : Counted serial s) (hst : s.next serial (.wake i) = some t) :
    Counted serial t := by
  obtain ⟨c, hc, hst⟩ := Option.bind_eq_some_iff.1 hst
  have hok := h.ok i c hc
  unfold State.wake at hst
  cases hstage : c.stage with
  | entering | queued | returned o => simp [hstage] at hst
  | decoding =>
    simp only [hstage] at hst
    split at hst
    · next ok hfuture =>
      obtain rfl := Option.some.inj hst
      have hthread := hok.told ok hfuture
      exact h.end_body hc (hok.exit (Or.inl (hok.alone (by simp [hstage]))) (by simp [hthread])
        (Or.inl hthread)) (by simp [Call.leased, hstage]) (Or.inl (by simp [Call.in_body, hstage]))
    · cases hst
  | polling =>
    simp only [hstage] at hst
    split at hst
    · next r howner =>
      obtain rfl := Option.some.inj hst
      have hout := hok.ended r howner
      refine h.end_body hc (hok.exit (Or.inr ⟨r, howner⟩) ?_ (hok.closing r (Or.inr (Or.inr howner))))
        (by simp [Call.leased, hstage]) (Or.inl (by simp [Call.in_body, hstage]))
      cases hth : c.thread <;> simp_all [Thread.out]
    · cases hst
  | draining =>
    simp only [hstage] at hst
    split at hst
    · next r howner =>
      obtain rfl := Option.some.inj hst
      have hout := hok.ended r howner
      refine h.end_body hc (hok.exit (Or.inr ⟨r, howner⟩) ?_ trivial)
        (by simp [Call.leased, hstage]) (Or.inl (by simp [Call.in_body, hstage]))
      cases hth : c.thread <;> simp_all [Thread.out]
    · cases hst
  | leaving o =>
    simp only [hstage] at hst
    obtain rfl := Option.some.inj hst
    have hbody : c.in_body = false := not_in_body (Or.inl hstage)
    have hmanaged := h.managed i c hc o hstage
    have hover : Call.Ok { c with stage := .returned o } := by
      refine hok.stage _ (by simp) (by simp) (fun _ => ⟨hok.unowned hbody, hok.outside hbody⟩) ?_
      intro o' ho'
      obtain rfl : o = o' := by simpa using ho'
      exact hok.fits o (Or.inl hstage)
    refine h.set hc hover (by simp) rfl ?_ ?_
    · -- the lease that is given back is counted
      intro k
      have hleased : c.leased = true := by simp [Call.leased, hstage, hmanaged]
      have hafter : Call.lease k { c with stage := .returned o } = 0 := by simp [Call.lease, Call.leased]
      rw [hafter]
      by_cases hk : c.kind.slot = k
      · have hone : c.lease k = 1 := by simp [Call.lease, hleased, hk]
        have hset : total (Call.lease k) (s.calls.set i { c with stage := .returned o }) + c.lease k =
            total (Call.lease k) s.calls + Call.lease k { c with stage := .returned o } := total_set hc
        have hcount := h.leases k
        subst hk
        simp only [Function.update_self]
        omega
      · have hzero : c.lease k = 0 := by simp [Call.lease, hk]
        rw [hzero]
        simp [Function.update_of_ne (Ne.symm hk)]
    · intro _
      have hzero : c.holds_slot = 0 := by simp [Call.holds_slot, hbody]
      have hafter : Call.holds_slot { c with stage := .returned o } = 0 := rfl
      rw [hzero, hafter]
      rfl

theorem cancel_counted (h : Counted serial s) (hjoined : s.joined (.cancel i) = true)
    (hst : s.next serial (.cancel i) = some t) : Counted serial t := by
  obtain ⟨c, hc, hst⟩ := Option.bind_eq_some_iff.1 hst
  have hok := h.ok i c hc
  simp only [joined, hc, Option.all_some] at hjoined
  unfold State.cancel at hst
  cases hstage : c.stage with
  | returned o => simp [hstage] at hst
  | leaving o => simp [hstage] at hjoined
  | entering =>
    simp only [hstage] at hst
    obtain rfl := Option.some.inj hst
    obtain ⟨hthread, howner⟩ := hok.before (Or.inl hstage)
    refine h.keep hc (hok.stage _ (by simp) (by simp) (fun _ => ⟨Or.inl howner, by simp [hthread]⟩) ?_)
      (by simp) (fun k => by simp [Call.lease, Call.leased, hstage])
      (by simp [Call.holds_slot, Call.in_body, hstage])
    intro o ho
    obtain rfl : Outcome.cancelled = o := by simpa using ho
    trivial
  | queued =>
    simp only [hstage] at hst
    obtain rfl := Option.some.inj hst
    refine h.keep hc (hok.exit_before (Or.inr hstage) fun _ => trivial) (exit_managed c _) ?_ ?_
    · intro k
      have hleased : c.leased = c.managed := by simp [Call.leased, hstage]
      unfold Call.lease
      rw [exit_leased, hleased]
      rfl
    · rw [exit_holds_slot]
      simp [Call.holds_slot, Call.in_body, hstage]
  | decoding =>
    simp only [hstage] at hst
    obtain rfl := Option.some.inj hst
    have hthread : c.thread ≠ .inside := by
      intro hth
      simp [hstage, hth] at hjoined
    have hbody : c.in_body = true := by simp [Call.in_body, hstage]
    refine h.set hc (hok.cancel_decode hstage hthread) (exit_managed _ _) rfl ?_ ?_
    · intro k
      have hleased : c.leased = c.managed := by simp [Call.leased, hstage]
      unfold Call.lease
      rw [exit_leased, hleased]
      rfl
    · intro hs
      rw [exit_holds_slot]
      simp [State.end_body, h.locked hs hc hbody, Call.holds_slot, hbody]
  | polling | draining =>
    simp only [hstage] at hst
    obtain rfl := Option.some.inj hst
    refine h.keep hc (hok.stage .draining (by simp) (by simp) (by simp [Call.in_body]) (by simp))
      (by simp) (fun k => ?_) ?_
    · simp [Call.lease, Call.leased, hstage]
    · simp [Call.holds_slot, Call.in_body, hstage]

theorem move_counted {m : Move} (h : Counted serial s) (hjoined : s.joined (.move i m) = true)
    (hst : s.next serial (.move i m) = some t) : Counted serial t := by
  obtain ⟨c, hc, hst⟩ := Option.bind_eq_some_iff.1 hst
  obtain ⟨c', hm, rfl⟩ := Option.map_eq_some_iff.1 hst
  obtain ⟨hstage, hmanaged, hkind⟩ := move_stage hm
  have hlive : m = .start → c.future ≠ .cancelled := by
    rintro rfl
    simpa [joined, hc] using hjoined
  refine h.keep hc ((h.ok i c hc).move hlive hm) ?_ ?_ ?_
  · intro o ho
    rw [hmanaged]
    exact h.managed i c hc o (hstage ▸ ho)
  · intro k
    unfold Call.lease Call.leased
    rw [hstage, hmanaged, hkind]
  · unfold Call.holds_slot Call.in_body
    rw [hstage]

theorem joined_counted {a : Act} (h : Counted serial s) (hst : Joined serial s a t) :
    Counted serial t := by
  obtain ⟨hjoined, hst⟩ := hst
  cases a with
  | call kind managed => exact call_counted h hst
  | enter i prepared => exact enter_counted h hst
  | refuse i => exact refuse_counted h hst
  | admitted i => exact admitted_counted h hst
  | admit_inline i ok => exact admit_inline_counted h hst
  | admit_fail i => exact admit_fail_counted h hst
  | wake i => exact wake_counted h hst
  | cancel i => exact cancel_counted h hjoined hst
  | move i m => exact move_counted h hjoined hst

theorem init_counted : Counted serial init := by
  constructor <;> simp [init]

/-- What is counted is kept. -/
theorem Counted.kept (h : Counted serial s) : Kept serial s := by
  refine ⟨h.leases, h.slot, ?_, ?_⟩
  · intro c hc hthread
    obtain ⟨i, hi⟩ := List.mem_iff_getElem?.1 hc
    have hbody : c.in_body = true := by
      by_contra hout
      exact ((h.ok i c hi).outside (by simpa using hout)).1 hthread
    refine ⟨by simp [Call.holds_slot, hbody], ?_⟩
    unfold Call.in_body at hbody
    unfold Call.leased
    cases hstage : c.stage <;> simp_all
  · intro c hc o ho hfirst
    obtain ⟨i, hi⟩ := List.mem_iff_getElem?.1 hc
    exact (h.ok i c hi).own_result ho hfirst

end
end State

/-- In every run as `joined` says, requests keep their leases while their threads are in the backend,
    give each back once, and return a native result that was there before the disconnect was seen. -/
theorem leases_kept {serial : Bool} {as : List Act} {s : State}
    (h : Run (State.Joined serial) State.init as s) : s.Kept serial := by
  have hcounted : State.Counted serial s :=
    Run.invariant (I := State.Counted serial) (fun hi hst => State.joined_counted hi hst)
      State.init_counted h
  exact hcounted.kept

/-- A Kokoro request whose caller is cancelled twice while the thread is in the backend. -/
theorem leases_kept_twice : ∃ s, Run (State.Joined true) State.init [.call (.kokoro true) true,
      .enter 0 true, .admitted 0, .move 0 .own, .move 0 .start, .cancel 0, .move 0 (.watch .disconnect),
      .move 0 .own, .cancel 0, .move 0 (.leave true), .move 0 .set_future, .move 0 .own, .move 0 .own,
      .move 0 .own, .wake 0, .wake 0] s ∧ s.Kept true := by
  obtain ⟨s, hrun, -⟩ := Run.of_replay_any
    (fun (s : State) (a : Act) => if s.joined a = true then State.next true s a else none) State.init [.call (.kokoro true)
      true, .enter 0 true, .admitted 0, .move 0 .own, .move 0 .start, .cancel 0,
      .move 0 (.watch .disconnect), .move 0 .own, .cancel 0, .move 0 (.leave true), .move 0 .set_future,
      .move 0 .own, .move 0 .own, .move 0 .own, .wake 0, .wake 0]
    (fun s => s.calls.all fun c => c.stage == .returned .cancelled) (by decide +kernel)
  exact ⟨s, Run.restrict_mono hrun, leases_kept (Run.restrict_mono hrun)⟩

/-- A cancelled decode goes on in the backend with its leases given back. -/
theorem decode_outlives_leases : ¬ ∀ (serial : Bool) (as : List Act) (s : State),
    Run (State.Steps serial) State.init as s → s.Kept serial := by
  intro h
  obtain ⟨s, hrun, hs⟩ := Run.of_replay_any (State.next true) State.init [.call .asr true,
    .enter 0 true, .admitted 0, .move 0 .start, .cancel 0, .wake 0]
    (fun s => s.calls.any fun c => c.thread == .inside && c.holds_slot == 0) (by decide +kernel)
  obtain ⟨c, hc, hout⟩ := List.any_eq_true.1 hs
  simp only [Bool.and_eq_true, beq_iff_eq] at hout
  have hin := ((h true _ s hrun).inside c hc hout.1).1
  omega

end LocalVoice.ApiExecution
